import NotePress.Proofs.JsonReading
import NotePress.Proofs.JsonStores

/-!
# Records read as JSON

Requests and other programs hold profiles and stores as JSON and read them as nothing else, while a
settings file is read as YAML. Of a value that was written both readers make the same
(`reread?_of_readBack?`), except that the reader of JSON takes any text and any depth and refuses a
number too great for 64 bits.

So a profile is restored exactly if its image scale survives, and none of its texts has to be
legible (`profile_json_restores_iff`). Of a valid store whose scales survive, a reader of JSON finds
the tree (`store_json_read`); a reader of YAML finds it too if the texts are legible
(`Store.read?_toJson`), and a store is restored exactly if its scales survive once it is found
(`json_restores_iff`).
-/

namespace NotePress.Json

/-! ### Both readers -/

theorem reread?_of_readBackNumber? {f : BinaryFormat} {x : Floating} {v : Data}
    (h : readBackNumber? f x = some v) : reread? (.float f x) = some v := by
  rw [reread?_float]
  cases x with
  | nan => exact h
  | infinite _ => exact h
  | finite negative m e =>
    unfold readBackNumber? at h
    cases hread : Floating.reread f negative m e <;> simp_all

mutual
/-- **What is read as JSON is read as YAML.** -/
theorem reread?_of_readBack? : ∀ {d v : Data}, Exchangeable d → readBack? d = some v →
    reread? d = some v
  | .null, _, _, h => by cases h; rfl
  | .bool b, _, _, h => by cases h; exact reread?_bool b
  | .int k, _, hd, h => by cases h; exact resolvePlain?_ofInt hd.1 hd.2
  | .float f x, _, _, h => reread?_of_readBackNumber? h
  | .text t, _, _, h => by cases h; exact reread?_text t
  | .list items, _, hd, h => by
    obtain ⟨vs, hvs, rfl⟩ := Option.map_eq_some_iff.mp h
    rw [reread?, rereadItems?_of_readBackItems? hd hvs]
    rfl
  | .map entries, _, hd, h => by
    obtain ⟨es, hes, rfl⟩ := Option.map_eq_some_iff.mp h
    rw [reread?, rereadEntries?_of_readBackEntries? hd.2 hes]
    rfl
  | .tagged _ inner, _, hd, h => @reread?_of_readBack? inner _ hd h

theorem rereadItems?_of_readBackItems? : ∀ {items vs : List Data}, ExchangeableItems items →
    readBackItems? items = some vs → rereadItems? items = some vs
  | [], _, _, h => by cases h; rfl
  | d :: items, _, hd, h => by
    obtain ⟨v, hv, h⟩ := Option.bind_eq_some_iff.mp h
    obtain ⟨vs, hvs, rfl⟩ := Option.map_eq_some_iff.mp h
    rw [rereadItems?, reread?_of_readBack? hd.1 hv, Option.bind_some,
      rereadItems?_of_readBackItems? hd.2 hvs]
    rfl

theorem rereadEntries?_of_readBackEntries? : ∀ {entries es : List (Data × Data)},
    ExchangeableEntries entries → readBackEntries? entries = some es →
    rereadEntries? entries = some es
  | [], _, _, h => by cases h; rfl
  | (k, v) :: entries, _, hd, h => by
    obtain ⟨v', hv', h⟩ := Option.bind_eq_some_iff.mp h
    obtain ⟨es, hes, rfl⟩ := Option.map_eq_some_iff.mp h
    rw [rereadEntries?, reread?_of_readBack? hd.2.1 hv', Option.bind_some,
      rereadEntries?_of_readBackEntries? hd.2.2 hes]
    rfl
end

/-! ### Records -/

/-- **The values of fields that hold no number**: nothing, a truth value, a text or a list of
texts. -/
inductive IsPlain : Data → Prop where
  | null : IsPlain .null
  | bool (b : Bool) : IsPlain (.bool b)
  | text (t : Text) : IsPlain (.text t)
  | texts (ts : List Text) : IsPlain (.list (ts.map .text))

theorem IsPlain.exchangeable {d : Data} (h : IsPlain d) : Exchangeable d := by
  cases h with
  | texts ts =>
    show ExchangeableItems _
    induction ts with
    | nil => trivial
    | cons t ts ih => exact ⟨trivial, ih⟩
  | _ => trivial

theorem IsPlain.isSome_readBack? {d : Data} (h : IsPlain d) : (readBack? d).isSome := by
  cases h with
  | texts ts =>
    have hitems : (readBackItems? (ts.map Data.text)).isSome := by
      induction ts with
      | nil => rfl
      | cons t ts ih =>
        rw [List.map_cons, readBackItems?]
        simpa [readBack?] using ih
    rw [readBack?]
    simpa using hitems
  | _ => rfl

/-- Entries with distinct texts as keys can be held if their values can. -/
theorem exchangeable_map {β : Type} {xs : List β} {key : β → Text} {value : β → Data}
    (hkeys : (xs.map key).Nodup) (h : ∀ x ∈ xs, Exchangeable (value x)) :
    Exchangeable (.map (xs.map fun x => (.text (key x), value x))) := by
  refine ⟨distinctKeys_texts hkeys, ?_⟩
  clear hkeys
  induction xs with
  | nil => trivial
  | cons x rest ih =>
    rw [List.forall_mem_cons] at h
    exact ⟨⟨key x, rfl⟩, h.1, ih h.2⟩

/-- Entries are read if their values are. -/
theorem isSome_readBack?_map {β : Type} (xs : List β) (key : β → Text) (value : β → Data) :
    (readBack? (.map (xs.map fun x => (.text (key x), value x)))).isSome ↔
      ∀ x ∈ xs, (readBack? (value x)).isSome := by
  rw [readBack?, Option.isSome_map]
  induction xs with
  | nil => simp [readBackEntries?]
  | cons x rest ih =>
    rw [List.map_cons, readBackEntries?, List.forall_mem_cons, ← ih]
    cases readBack? (value x) <;> simp

end NotePress.Json

namespace NotePress

open Json (IsPlain Exchangeable readBack? readBackNumber?)

namespace Field

variable {α : Type} (name : String) (a : α)

theorem isPlain_get_text (get : α → Text) (set : α → Text → α) :
    IsPlain ((text name get set).get a) := .text _

theorem isPlain_get_optional (get : α → Option Text) (set : α → Option Text → α) :
    IsPlain ((optional name get set).get a) := by
  show IsPlain (((get a).map Data.text).getD .null)
  cases get a with
  | none => exact .null
  | some t => exact .text t

theorem isPlain_get_texts (get : α → List Text) (set : α → List Text → α) :
    IsPlain ((texts name get set).get a) := .texts _

theorem isPlain_get_bool (get : α → Bool) (set : α → Bool → α) :
    IsPlain ((bool name get set).get a) := .bool _

end Field

theorem Labels.isPlain_get (l : Labels) : ∀ f ∈ fields, IsPlain (f.get l) := by
  simp [fields, Field.isPlain_get_text]

theorem Labels.exchangeable_toData (l : Labels) : Exchangeable l.toData :=
  Json.exchangeable_map nodup_names fun f hf => (l.isPlain_get f hf).exchangeable

theorem Labels.isSome_readBack?_toData (l : Labels) : (readBack? l.toData).isSome :=
  (Json.isSome_readBack?_map ..).mpr fun f hf => (l.isPlain_get f hf).isSome_readBack?

namespace Profile

variable (p : Profile)

/-- A field of a profile holds no number, or it holds the labels or the image scale. -/
theorem get_cases : ∀ f ∈ fields,
    IsPlain (f.get p) ∨ f.get p = p.labels.toData ∨ f.get p = .float single p.imageScale := by
  simp [fields, Field.isPlain_get_text, Field.isPlain_get_optional, Field.isPlain_get_texts,
    Field.isPlain_get_bool]

theorem exchangeable_toData : Exchangeable p.toData := by
  refine Json.exchangeable_map nodup_names fun f hf => ?_
  rcases p.get_cases f hf with hplain | hlabels | hscale
  · exact hplain.exchangeable
  · rw [hlabels]
    exact p.labels.exchangeable_toData
  · rw [hscale]
    trivial

/-- A profile is read if its scale is. -/
theorem isSome_readBack?_toData :
    (readBack? p.toData).isSome ↔ (readBackNumber? single p.imageScale).isSome := by
  have hscale : readBack? (.float single p.imageScale) = readBackNumber? single p.imageScale := by
    rw [readBack?]
  refine (Json.isSome_readBack?_map ..).trans ⟨fun h => ?_, fun h f hf => ?_⟩
  · obtain ⟨f, hf, hget⟩ : ∃ f ∈ fields, f.get p = .float single p.imageScale := by simp [fields]
    have hsome := h f hf
    rwa [hget, hscale] at hsome
  · rcases p.get_cases f hf with hplain | hlabels | hnumber
    · exact hplain.isSome_readBack?
    · rw [hlabels]
      exact p.labels.isSome_readBack?_toData
    · rwa [hnumber, hscale]

/-- What is read of a profile is what a reader of YAML makes of it. -/
theorem readBack?_toData :
    readBack? p.toData = (readBackNumber? single p.imageScale).map fun _ => p.reread := by
  have hsome := p.isSome_readBack?_toData
  cases hnumber : readBackNumber? single p.imageScale with
  | none =>
    rw [hnumber] at hsome
    exact Option.not_isSome_iff_eq_none.mp fun h => nomatch hsome.mp h
  | some v =>
    rw [hnumber] at hsome
    obtain ⟨d, hd⟩ := Option.isSome_iff_exists.mp (hsome.mpr rfl)
    have hreread := Json.reread?_of_readBack? p.exchangeable_toData hd
    rw [p.reread?_toData] at hreread
    rw [hd, ← hreread]
    rfl

end Profile

/-- A scale that survives JSON is read. -/
theorem Floating.Survives.isSome_readBackNumber? {x : Floating} (h : x.Survives) :
    (readBackNumber? single x).isSome := by
  obtain ⟨negative, m, e, rfl, h⟩ := h
  unfold readBackNumber?
  simp only
  split
  · rename_i sign hinfinite
    rw [hinfinite] at h
    cases h
  · rfl

/-- **A profile that is written as JSON is read back if and only if its image scale survives**,
whatever its texts are and by the rules for requests. -/
theorem profile_json_restores_iff (p : Profile) (indent : Nat) :
    (Json.read? (Json.writePretty indent p.toData)).bind (Profile.ofData? .request) = some p ↔
      p.imageScale.Survives := by
  rw [Json.read?_eq_readBack? p.exchangeable_toData, p.readBack?_toData]
  cases hnumber : readBackNumber? single p.imageScale with
  | none =>
    refine ⟨nofun, fun h => ?_⟩
    have hsome := h.isSome_readBackNumber?
    rw [hnumber] at hsome
    cases hsome
  | some v =>
    rw [Option.map_some, Option.bind_some, p.ofData?_reread, ← Profile.rereadScale?_eq_self_iff,
      Option.map_eq_some_iff]
    refine ⟨?_, fun h => ⟨_, h, rfl⟩⟩
    rintro ⟨x, hx, heq⟩
    rw [hx, ← congrArg Profile.imageScale heq]

/-- **A store that is written as JSON is read as its tree**, with its scales read of their decimals,
whatever its texts are. -/
theorem store_json_read {s : Store} (hs : s.Valid)
    (hscales : ∀ e ∈ s.profiles, e.2.imageScale.Survives) :
    Json.read? s.toJson = Json.reread? s.toData := by
  have hprofiles : Exchangeable (.map (s.profiles.map fun e => (.text e.1, e.2.toData))) :=
    Json.exchangeable_map hs.1 fun e _ => e.2.exchangeable_toData
  have hstore : Exchangeable s.toData := ⟨rfl, ⟨_, rfl⟩, trivial, ⟨_, rfl⟩, hprofiles, trivial⟩
  have hsome : (readBack? (.map (s.profiles.map fun e => (.text e.1, e.2.toData)))).isSome :=
    (Json.isSome_readBack?_map ..).mpr fun e he =>
      e.2.isSome_readBack?_toData.mpr (hscales e he).isSome_readBackNumber?
  obtain ⟨read, hread⟩ := Option.isSome_iff_exists.mp hsome
  obtain ⟨d, hd⟩ : ∃ d, readBack? s.toData = some d := by
    have htext : readBack? (.text s.active) = some (.text s.active) := by simp [readBack?]
    rw [Store.toData, readBack?, Json.readBackEntries?, htext, Option.bind_some,
      Json.readBackEntries?, hread]
    exact ⟨_, rfl⟩
  rw [Store.toJson, Json.read?_eq_readBack? hstore, hd, Json.reread?_of_readBack? hstore hd]

end NotePress
