import Mathlib.Data.List.Nodup
import NotePress.Proofs.JsonNodes
import NotePress.Proofs.Lists
import NotePress.Proofs.Validity
import NotePress.Proofs.WrittenFiles
import NotePress.Store.Persistence

/-!
# Stores in JSON

A record that is written with all its fields is read field by field (`readRecord?_fields`), and JSON
gives all kinds of fields back but numbers. So a store that was written as JSON is read with its
image scales replaced by those that are read of their decimals, or refused if one is no number
(`Store.parse_toJson`).

An infinite scale stands as null in JSON, and a decimal with the fewest digits for 32 bits may be
read with 64 bits as a number that is rounded to another one. `Floating.Survives` is what is left,
and `json_restores_iff` says that a store is restored exactly if its scales survive. All this is
about stores whose JSON is read as the tree that was written; `Store.read?_toJson` shows it of all
stores with legible texts.
-/

namespace NotePress

/-! ### Records -/

section

variable {α : Type} {rules : ReadingRules} {fields : List (Field α)}

theorem find?_field (hnames : (fields.map (·.name)).Nodup) {f : Field α} (hf : f ∈ fields) :
    (fields.find? fun g => g.name = f.name) = some f := by
  induction fields with
  | nil => cases hf
  | cons g rest ih =>
    rw [List.map_cons, List.nodup_cons] at hnames
    rcases List.mem_cons.mp hf with rfl | hf
    · simp
    · have hne : g.name ≠ f.name := fun heq =>
        hnames.1 (heq ▸ List.mem_map_of_mem hf)
      rw [List.find?_cons_of_neg (by simpa using hne)]
      exact ih hnames.2 hf

/-- **A record with a value for each of its fields is read field by field.** -/
theorem readRecord?_fields (hnames : (fields.map (·.name)).Nodup) (values : Field α → Data)
    (start : α) :
    readRecord? rules fields start (.map (fields.map fun f => (.text f.name, values f))) =
      fields.foldlM (fun a f => f.set rules a (values f)) start := by
  have hkeys : (fields.map fun f => (Data.text f.name, values f)).mapM
      (fun e : Data × Data => e.1.text?.map fun k => (k, e.2)) =
      some (fields.map fun f => (f.name, values f)) := by
    rw [List.mapM_map]
    exact mapM_eq_some_map fun f _ => rfl
  have hknown : ((fields.map fun f => (f.name, values f)).map (·.1)).filter
      (fun k => fields.any fun f => f.name = k) = fields.map (·.name) := by
    rw [List.map_map]
    refine List.filter_eq_self.mpr fun k hk => ?_
    obtain ⟨f, hf, rfl⟩ := List.mem_map.mp hk
    exact List.any_eq_true.mpr ⟨f, hf, by simp⟩
  have hset : ∀ (later : List (Field α)) (a : α), (∀ f ∈ later, f ∈ fields) →
      (later.map fun f => (f.name, values f)).foldlM (setField? rules fields) a =
        later.foldlM (fun a f => f.set rules a (values f)) a := by
    intro later
    induction later with
    | nil => exact fun _ _ => rfl
    | cons f later ih =>
      intro a hlater
      rw [List.map_cons, List.foldlM_cons, List.foldlM_cons]
      have hfind := find?_field hnames (hlater f (List.mem_cons_self ..))
      simp only [setField?, hfind]
      exact congrArg _ (funext fun b => ih b fun g hg => hlater g (List.mem_cons_of_mem _ hg))
  unfold readRecord?
  simp only [Data.untag, hkeys, Option.bind_some]
  unfold setFields?
  simp only [hknown]
  rw [if_pos (by rw [eraseDups_of_nodup hnames])]
  exact hset fields start fun _ hf => hf

end

/-! ### What is read of each field -/

namespace Json

theorem reread?_text (t : Text) : reread? (.text t) = some (.text t) := by rw [reread?]

theorem reread?_bool (b : Bool) : reread? (.bool b) = some (.bool b) := by cases b <;> rfl

/-- **Of a number its shortest decimal is read**, and nothing of one that is not finite. -/
theorem reread?_float (f : BinaryFormat) (x : Floating) :
    reread? (.float f x) =
      match x with
      | .finite negative m e =>
        match Floating.reread f negative m e with
        | .infinite _ => some (.text (NumberLayout.json.write f x))
        | y => some (.float double y)
      | _ => some .null :=
  resolvePlain?_write f x

theorem exists_reread?_float (f : BinaryFormat) (x : Floating) :
    ∃ d, reread? (.float f x) = some d := by
  rw [reread?_float]
  cases x with
  | nan => exact ⟨_, rfl⟩
  | infinite _ => exact ⟨_, rfl⟩
  | finite negative m e =>
    cases hread : Floating.reread f negative m e <;> exact ⟨_, by simp only [hread]; rfl⟩

theorem reread?_texts (ts : List Text) :
    reread? (.list (ts.map Data.text)) = some (.list (ts.map Data.text)) := by
  have hitems : rereadItems? (ts.map Data.text) = some (ts.map Data.text) := by
    induction ts with
    | nil => rfl
    | cons t rest ih =>
      rw [List.map_cons, rereadItems?, reread?_text t, Option.bind_some, ih]
      rfl
  rw [reread?, hitems]
  rfl

/-- Entries are read one by one. -/
theorem rereadEntries?_map {β : Type} {xs : List β} {key : β → Text} {value read : β → Data}
    (h : ∀ x ∈ xs, reread? (value x) = some (read x)) :
    rereadEntries? (xs.map fun x => (.text (key x), value x)) =
      some (xs.map fun x => (.text (key x), read x)) := by
  induction xs with
  | nil => rfl
  | cons x rest ih =>
    rw [List.map_cons, rereadEntries?, h x (List.mem_cons_self ..), Option.bind_some,
      ih fun y hy => h y (List.mem_cons_of_mem _ hy)]
    rfl

theorem readableEntries_map {β : Type} {xs : List β} {key : β → Text} {value : β → Data}
    (h : ∀ x ∈ xs, IsKey (.text (key x)) ∧ Readable (value x)) :
    ReadableEntries (xs.map fun x => (.text (key x), value x)) := by
  induction xs with
  | nil => trivial
  | cons x rest ih =>
    exact ⟨(h x (List.mem_cons_self ..)).1, (h x (List.mem_cons_self ..)).2,
      ih fun y hy => h y (List.mem_cons_of_mem _ hy)⟩

theorem distinctKeys_texts {β : Type} {xs : List β} {key : β → Text} {value : β → Data}
    (h : (xs.map key).Nodup) :
    Data.distinctKeys (xs.map fun x => (.text (key x), value x)) = true := by
  induction xs with
  | nil => rfl
  | cons x rest ih =>
    obtain ⟨hx, hrest⟩ := List.nodup_cons.mp h
    have hany : ((rest.map fun y => (Data.text (key y), value y)).any fun e =>
        Data.sameKey (.text (key x)) e.1) = false := by
      rw [List.any_map, List.any_eq_false]
      intro y hy hsame
      have heq : key x = key y := by simpa [Data.sameKey] using hsame
      exact hx (heq ▸ List.mem_map_of_mem hy)
    rw [List.map_cons, Data.distinctKeys, hany, ih hrest]
    rfl

theorem entriesNesting_map_le {β : Type} {xs : List β} {key : β → Text} {value : β → Data} {n : Nat}
    (h : ∀ x ∈ xs, nesting (value x) ≤ n) :
    entriesNesting (xs.map fun x => (.text (key x), value x)) ≤ n := by
  induction xs with
  | nil => exact Nat.zero_le n
  | cons x rest ih =>
    exact Nat.max_le.mpr
      ⟨h x (List.mem_cons_self ..), ih fun y hy => h y (List.mem_cons_of_mem _ hy)⟩

/-- A record is readable if its fields are; their names are keys. -/
theorem readable_writeRecord {α : Type} {fields : List (Field α)} {a : α}
    (hnames : (fields.map (·.name)).Nodup) (hkeys : ∀ f ∈ fields, IsKey (.text f.name))
    (h : ∀ f ∈ fields, Readable (f.get a)) : Readable (writeRecord fields a) :=
  ⟨distinctKeys_texts hnames, readableEntries_map fun f hf => ⟨hkeys f hf, h f hf⟩⟩

/-- A record is read of what is read of its fields. -/
theorem reread?_writeRecord {α : Type} {fields : List (Field α)} {a : α} {read : Field α → Data}
    (h : ∀ f ∈ fields, reread? (f.get a) = some (read f)) :
    reread? (writeRecord fields a) = some (.map (fields.map fun f => (.text f.name, read f))) := by
  rw [writeRecord, reread?, rereadEntries?_map h]
  rfl

end Json

namespace Field

variable {α : Type} {rules : ReadingRules} (name : String) (a b : α)

@[simp] theorem reread?_get_text (get : α → Text) (set : α → Text → α) :
    Json.reread? ((text name get set).get a) = some ((text name get set).get a) :=
  Json.reread?_text _

@[simp] theorem reread?_get_optional (get : α → Option Text) (set : α → Option Text → α) :
    Json.reread? ((optional name get set).get a) = some ((optional name get set).get a) := by
  show Json.reread? (((get a).map Data.text).getD .null) = some (((get a).map Data.text).getD .null)
  cases get a with
  | none => rfl
  | some t => exact Json.reread?_text t

@[simp] theorem reread?_get_texts (get : α → List Text) (set : α → List Text → α) :
    Json.reread? ((texts name get set).get a) = some ((texts name get set).get a) :=
  Json.reread?_texts _

@[simp] theorem reread?_get_bool (get : α → Bool) (set : α → Bool → α) :
    Json.reread? ((bool name get set).get a) = some ((bool name get set).get a) :=
  Json.reread?_bool _

@[simp] theorem nesting_get_text (get : α → Text) (set : α → Text → α) :
    Json.nesting ((text name get set).get a) = 0 := rfl

@[simp] theorem nesting_get_bool (get : α → Bool) (set : α → Bool → α) :
    Json.nesting ((bool name get set).get a) = 0 := rfl

@[simp] theorem nesting_get_optional (get : α → Option Text) (set : α → Option Text → α) :
    Json.nesting ((optional name get set).get a) = 0 := by
  show Json.nesting (((get a).map Data.text).getD .null) = 0
  cases get a <;> rfl

@[simp] theorem nesting_get_texts (get : α → List Text) (set : α → List Text → α) :
    Json.nesting ((texts name get set).get a) = 1 := by
  have hitems : ∀ ts : List Text, Json.itemsNesting (ts.map Data.text) = 0 := by
    intro ts
    induction ts with
    | nil => rfl
    | cons t rest ih =>
      rw [List.map_cons, Json.itemsNesting, ih]
      rfl
  exact congrArg (· + 1) (hitems (get a))

@[simp] theorem set_get_text (get : α → Text) (set : α → Text → α) :
    (text name get set).set rules b ((text name get set).get a) = some (set b (get a)) := rfl

@[simp] theorem set_get_optional (get : α → Option Text) (set : α → Option Text → α) :
    (optional name get set).set rules b ((optional name get set).get a) = some (set b (get a)) := by
  show (readOptional? (((get a).map Data.text).getD .null)).map (set b) = _
  cases get a <;> rfl

@[simp] theorem set_get_texts (get : α → List Text) (set : α → List Text → α) :
    (texts name get set).set rules b ((texts name get set).get a) = some (set b (get a)) := by
  have hitems : ((get a).map Data.text).mapM Data.text? = some (get a) := by
    rw [List.mapM_map, mapM_eq_some_map (k := id) (by exact fun _ _ => rfl), List.map_id]
  show (readTexts? rules (.list ((get a).map Data.text))).map (set b) = _
  simp [readTexts?, Data.untag, hitems]

@[simp] theorem set_get_bool (get : α → Bool) (set : α → Bool → α) :
    (bool name get set).set rules b ((bool name get set).get a) = some (set b (get a)) := rfl

end Field

namespace Labels

theorem nodup_names : (fields.map (·.name)).Nodup := by decide

/-- Labels are read as they are written. -/
theorem reread?_toData (l : Labels) : Json.reread? l.toData = some l.toData := by
  refine Json.reread?_writeRecord ?_
  simp [fields]

theorem ofData?_toData (rules : ReadingRules) (l : Labels) : ofData? rules l.toData = some l := by
  have hread : ofData? rules l.toData =
      fields.foldlM (fun a f => f.set rules a (f.get l)) {} :=
    readRecord?_fields nodup_names (fun f => f.get l) {}
  rw [hread]
  rfl

end Labels

/-- **Whether a number of 32 bits survives JSON**: it is finite, and its shortest decimal, read with
64 bits and rounded to 32 of them, is the number. -/
def Floating.Survives (x : Floating) : Prop :=
  ∃ negative m e, x = .finite negative m e ∧
    (Floating.reread single negative m e).convert single = x

namespace Profile

theorem nodup_names : (fields.map (·.name)).Nodup := by decide

theorem isKey_name : ∀ f ∈ fields, Json.IsKey (.text f.name) := by decide +kernel

/-- The scale that is read of one that JSON holds; none if that is no number. -/
def rereadScale? (x : Floating) : Option Floating :=
  (Json.reread? (.float single x)).bind Field.readSingle?

theorem rereadScale?_eq_self_iff {x : Floating} :
    rereadScale? x = some x ↔ x.Survives := by
  unfold rereadScale?
  rw [Json.reread?_float]
  cases x with
  | nan => simp [Floating.Survives, Field.readSingle?, Data.untag]
  | infinite negative => simp [Floating.Survives, Field.readSingle?, Data.untag]
  | finite negative m e =>
    have hsurvives : (Floating.finite negative m e).Survives ↔
        (Floating.reread single negative m e).convert single = .finite negative m e := by
      refine ⟨?_, fun h => ⟨negative, m, e, rfl, h⟩⟩
      rintro ⟨_, _, _, ⟨⟩, h⟩
      exact h
    rw [hsurvives]
    cases hread : Floating.reread single negative m e with
    | infinite sign => simp [hread, Field.readSingle?, Data.untag, Floating.convert]
    | nan => simp [hread, Field.readSingle?, Data.untag]
    | finite _ _ _ => simp [hread, Field.readSingle?, Data.untag]

instance (x : Floating) : Decidable x.Survives :=
  decidable_of_iff _ rereadScale?_eq_self_iff

-- The scale 0.8 survives. Some finite numbers do not: the decimal of the second one is rounded twice,
-- to the middle between two numbers of 32 bits and then to the other one.
example : Floating.Survives (.finite false 13421773 (-24)) := by decide +kernel

example : ¬Floating.Survives (.finite false 11420669 (-107)) := by decide +kernel

/-- What is read of each field. -/
theorem reread?_get (p : Profile) :
    ∀ f ∈ fields, Json.reread? (f.get p) = some ((Json.reread? (f.get p)).getD .null) := by
  obtain ⟨scale, hscale⟩ := Json.exists_reread?_float single p.imageScale
  simp [fields, hscale, Labels.reread?_toData]

/-- What is read of a profile. -/
def reread (p : Profile) : Data :=
  .map (fields.map fun f => (.text f.name, (Json.reread? (f.get p)).getD .null))

theorem reread?_toData (p : Profile) : Json.reread? p.toData = some p.reread :=
  Json.reread?_writeRecord p.reread?_get

/-- **A profile in JSON is read with its scale read anew**, and is refused if that is no number. -/
theorem ofData?_reread (rules : ReadingRules) (p : Profile) :
    ofData? rules p.reread =
      (rereadScale? p.imageScale).map fun x => { p with imageScale := x } := by
  obtain ⟨scale, hscale⟩ := Json.exists_reread?_float single p.imageScale
  have hread : ofData? rules p.reread =
      fields.foldlM (fun a f => f.set rules a ((Json.reread? (f.get p)).getD .null)) {} :=
    readRecord?_fields nodup_names _ {}
  rw [hread, rereadScale?, hscale, Option.bind_some]
  simp [fields, hscale, Labels.reread?_toData, Labels.ofData?_toData]
  cases Field.readSingle? scale <;> rfl

end Profile

/-! ### Stores -/

namespace Store

variable {s : Store} {name : Text} {profiles : List (Text × Profile)} {p : Profile}

/-- **Profiles with distinct names are read one by one**, unless one is refused. -/
theorem ofEntries_map {β : Type} {xs : List β} {key : β → Text} {value : β → Data}
    (h : (profiles.map (·.1) ++ xs.map key).Nodup) :
    ofEntries profiles (xs.map fun x => (.text (key x), value x)) =
      match xs.mapM fun x => (Profile.ofData? .settings (value x)).map fun p => (key x, p) with
      | some read => .ok (profiles ++ read)
      | none => .error .badProfile := by
  induction xs generalizing profiles with
  | nil => rw [List.map_nil, ofEntries, List.mapM_nil]; simp
  | cons x rest ih =>
    rw [List.map_cons, ofEntries, List.mapM_cons]
    cases hp : Profile.ofData? .settings (value x) with
    | none => simp [Data.text?, Data.untag, profileOf, hp, Except.bind]
    | some p =>
      have hnew : key x ∉ profiles.map (·.1) := fun hmem => by
        have := List.disjoint_of_nodup_append h hmem
        simp at this
      have hrest : ((profiles ++ [(key x, p)]).map (·.1) ++ rest.map key).Nodup := by
        simpa using h
      simp only [Data.text?, Data.untag, profileOf, hp, Except.bind, put_of_not_mem hnew, ih hrest]
      cases rest.mapM fun y => (Profile.ofData? .settings (value y)).map fun p => (key y, p) <;>
        simp

/-- The profiles that are read of those of a store. -/
def rereadProfiles? (s : Store) : Option (List (Text × Profile)) :=
  s.profiles.mapM fun e =>
    (Profile.rereadScale? e.2.imageScale).map fun x => (e.1, { e.2 with imageScale := x })

/-- What is read of a store. -/
theorem reread?_toData (s : Store) : Json.reread? s.toData =
    some (.map [(.text "activeProfile".toList, .text s.active),
      (.text "profiles".toList, .map (s.profiles.map fun e => (.text e.1, e.2.reread)))]) := by
  have hprofiles : Json.reread? (.map (s.profiles.map fun e => (.text e.1, e.2.toData))) =
      some (.map (s.profiles.map fun e => (.text e.1, e.2.reread))) := by
    rw [Json.reread?, Json.rereadEntries?_map fun e _ => e.2.reread?_toData]
    rfl
  rw [toData, Json.reread?, Json.rereadEntries?, Json.reread?_text, Option.bind_some,
    Json.rereadEntries?, hprofiles]
  rfl

/-- **A store in JSON is read with all scales read anew**, and refused if one is no number. -/
theorem parse_toJson (hs : s.Valid) (hread : Yaml.read? s.toJson = Json.reread? s.toData) :
    parse s.toJson = match s.rereadProfiles? with
      | some profiles => .ok ⟨s.active, profiles⟩
      | none => .error .badProfile := by
  have hprofile : (fun e : Text × Profile =>
      (Profile.ofData? .settings e.2.reread).map fun p => (e.1, p)) = fun e =>
      (Profile.rereadScale? e.2.imageScale).map fun x => (e.1, { e.2 with imageScale := x }) := by
    funext e
    rw [e.2.ofData?_reread, Option.map_map]
    rfl
  have hentries : ofEntries [] (s.profiles.map fun e => (.text e.1, e.2.reread)) =
      match s.rereadProfiles? with
      | some profiles => .ok profiles
      | none => .error .badProfile := by
    rw [ofEntries_map (by rw [List.map_nil, List.nil_append]; exact hs.1), hprofile]
    rfl
  unfold parse
  rw [hread, reread?_toData]
  show (ofEntries [] (s.profiles.map fun e => (.text e.1, e.2.reread))).map
    (fun profiles => ofProfiles profiles (some s.active)) = _
  rw [hentries]
  cases hsome : s.rereadProfiles? with
  | none => rfl
  | some profiles =>
    have hnames : profiles.map (·.1) = s.names := by
      refine map_eq_of_mapM (fun e e' h => ?_) hsome
      obtain ⟨x, -, rfl⟩ := Option.map_eq_some_iff.mp h
      rfl
    have hactive : (profiles.lookup s.active).isSome = true := by
      rw [isSome_lookup_iff, hnames]
      exact hs.2
    cases profiles with
    | nil => cases hactive
    | cons e rest =>
      show Except.ok (⟨if _ then s.active else e.1, e :: rest⟩ : Store) = _
      rw [if_pos hactive]

theorem rereadProfiles?_eq_self_iff :
    s.rereadProfiles? = some s.profiles ↔ ∀ e ∈ s.profiles, e.2.imageScale.Survives := by
  unfold rereadProfiles?
  rw [mapM_eq_self_iff]
  refine forall₂_congr fun e _ => ?_
  rw [← Profile.rereadScale?_eq_self_iff]
  constructor
  · intro h
    obtain ⟨x, hx, heq⟩ := Option.map_eq_some_iff.mp h
    rw [hx]
    exact congrArg (fun e : Text × Profile => some e.2.imageScale) heq
  · intro h
    rw [h]
    rfl

/-- A store that JSON holds and gives back is read as it was, if its scales are. -/
theorem parse_toJson_eq_ok_iff (hs : s.Valid)
    (hread : Yaml.read? s.toJson = Json.reread? s.toData) :
    parse s.toJson = .ok s ↔ ∀ e ∈ s.profiles, e.2.imageScale.Survives := by
  rw [← rereadProfiles?_eq_self_iff, parse_toJson hs hread]
  cases s.rereadProfiles? with
  | none => simp
  | some profiles =>
    obtain ⟨active, original⟩ := s
    simp

/-! ### Legible stores -/

/-- A store of legible texts, with names that are short enough for keys. -/
def Legible (s : Store) : Prop :=
  Yaml.Legible s.active ∧ ∀ e ∈ s.profiles,
    Json.IsKey (.text e.1) ∧ ∀ f ∈ Profile.fields, Json.Readable (f.get e.2)

instance (s : Store) : Decidable s.Legible := instDecidableAnd

theorem readable_toData (hs : s.Valid) (h : s.Legible) : Json.Readable s.toData := by
  have hdistinct : Data.distinctKeys (s.profiles.map fun e => (.text e.1, e.2.toData)) = true :=
    Json.distinctKeys_texts hs.1
  have hprofiles : Json.ReadableEntries (s.profiles.map fun e => (.text e.1, e.2.toData)) :=
    Json.readableEntries_map fun e he => ⟨(h.2 e he).1,
      Json.readable_writeRecord Profile.nodup_names Profile.isKey_name (h.2 e he).2⟩
  have hkey : ∀ name ∈ ["activeProfile", "profiles"], Json.IsKey (.text name.toList) := by decide
  exact ⟨rfl, hkey _ (by simp), h.1, hkey _ (by simp), ⟨hdistinct, hprofiles⟩, trivial⟩

/-- Lists and labels in profiles, profiles by name: nothing in a store is nested deeper. -/
theorem nesting_toData (s : Store) : Json.nesting s.toData ≤ Yaml.depthLimit := by
  have hlabels : ∀ l : Labels, Json.nesting l.toData ≤ 1 := fun l => by
    have hfields : ∀ f ∈ Labels.fields, Json.nesting (f.get l) ≤ 0 := by simp [Labels.fields]
    exact Nat.succ_le_succ (Json.entriesNesting_map_le hfields)
  have hprofile : ∀ p : Profile, Json.nesting p.toData ≤ 2 := fun p => by
    have hscale : Json.nesting (.float single p.imageScale) = 0 := rfl
    have hfields : ∀ f ∈ Profile.fields, Json.nesting (f.get p) ≤ 1 := by
      simp [Profile.fields, hlabels, hscale]
    exact Nat.succ_le_succ (Json.entriesNesting_map_le hfields)
  have hprofiles : Json.nesting (.map (s.profiles.map fun e => (.text e.1, e.2.toData))) ≤ 3 :=
    Nat.succ_le_succ (Json.entriesNesting_map_le fun e _ => hprofile e.2)
  have hstore : Json.nesting s.toData =
      Json.nesting (.map (s.profiles.map fun e => (.text e.1, e.2.toData))) + 1 := by
    simp [toData, Json.nesting, Json.entriesNesting]
  rw [hstore]
  exact (Nat.succ_le_succ hprofiles).trans (by decide)

/-- **The JSON of a legible store is read as the tree that was written.** -/
theorem read?_toJson (hs : s.Valid) (h : s.Legible) :
    Yaml.read? s.toJson = Json.reread? s.toData :=
  Json.read?_writePretty (readable_toData hs h) (nesting_toData s)

/-! ### Files -/

/-- The scale of a fresh store survives. -/
theorem survives_fresh : ∀ e ∈ fresh.profiles, e.2.imageScale.Survives := by decide +kernel

/-- A store that is read where a file may be malformed is the store that the file holds. -/
theorem parseOrFresh_toJson_eq_iff (hs : s.Valid)
    (hread : Yaml.read? s.toJson = Json.reread? s.toData) :
    parseOrFresh s.toJson = s ↔ parse s.toJson = .ok s := by
  unfold parseOrFresh
  cases hparse : parse s.toJson with
  | ok read => simp
  | error fault =>
    refine ⟨fun hfresh => ?_, nofun⟩
    -- the JSON of a fresh store is read, because its scale survives
    have hfresh : fresh = s := hfresh
    rw [← hparse, parse_toJson_eq_ok_iff hs hread, ← hfresh]
    exact survives_fresh

end Store

/-- **A store that is written as JSON is read back if and only if all its image scales survive**:
provided that the text is read as the tree that was written, as it is for legible stores
(`Store.read?_toJson`). The same holds of a store that is saved to a path with JSON's extension and
loaded from there. -/
theorem json_restores_iff {s : Store} (hs : s.Valid)
    (hread : Yaml.read? s.toJson = Json.reread? s.toData) :
    (Store.parse s.toJson = .ok s ↔ ∀ e ∈ s.profiles, e.2.imageScale.Survives) ∧
      ∀ {d d' : Disk} {path : Text},
        ((Path.extension? path).any fun e => Text.sameAscii e "json".toList) = true →
        s.save d path = .ok d' →
        (Store.load d' path = s ↔ ∀ e ∈ s.profiles, e.2.imageScale.Survives) := by
  have hparse := Store.parse_toJson_eq_ok_iff hs hread
  refine ⟨hparse, fun {d d' path} hextension hsave => ?_⟩
  have htext : s.textFor path = s.toJson := if_pos hextension
  unfold Store.save at hsave
  rw [htext] at hsave
  have hload : Store.load d' path = Store.parseOrFresh s.toJson := by
    unfold Store.load
    rw [Disk.readText_of_write hsave]
  rw [hload, Store.parseOrFresh_toJson_eq_iff hs hread, hparse]

/-- Two profiles with names and texts that JSON escapes. -/
def quotedStore : Store :=
  ⟨"a \"b\"".toList,
    [("Default".toList, { filters := ["x\ty".toList, []], pandocPath := some "C:\\p".toList }),
     ("a \"b\"".toList,
      { imageScale := .finite false 0 (-149), customHeader := "% é\n\n ".toList })]⟩

/-- An empty directory. -/
def shelf : Disk := ⟨[(["shelf".toList], .directory)]⟩

/-- Texts are escaped and read back, and so are numbers. -/
theorem json_restores_iff_quoted :
    Store.parse quotedStore.toJson = .ok quotedStore ∧
      ∃ d', quotedStore.save shelf "/shelf/store.JSON".toList = .ok d' ∧
        Store.load d' "/shelf/store.JSON".toList = quotedStore := by
  have hlegible : quotedStore.Legible := by decide +kernel
  have hvalid : quotedStore.Valid := ⟨by decide, by decide⟩
  have hrestores := json_restores_iff hvalid (Store.read?_toJson hvalid hlegible)
  have hscales : ∀ e ∈ quotedStore.profiles, e.2.imageScale.Survives := by decide +kernel
  have hdestination : shelf.destination? "/shelf/store.JSON".toList =
      .ok ["shelf".toList, "store.JSON".toList] := rfl
  have hsave : ∃ d', quotedStore.save shelf "/shelf/store.JSON".toList = .ok d' := by
    unfold Store.save Disk.write
    rw [hdestination]
    exact ⟨_, rfl⟩
  obtain ⟨d', hsave⟩ := hsave
  exact ⟨hrestores.1.mpr hscales, d', hsave, (hrestores.2 (by decide) hsave).mpr hscales⟩

/-- A store whose image scale is infinite. -/
def endlessStore : Store := .singleton "Poster".toList { imageScale := .infinite false }

/-- **An infinite scale loses the whole store**: JSON holds null in its place, which is no number,
so the file is malformed and a fresh store is loaded. -/
theorem endless_store_lost :
    endlessStore.Valid ∧ (∀ e ∈ endlessStore.profiles, e.2.imageScale ≠ .nan) ∧
      Store.parse endlessStore.toJson = .error .badProfile ∧
      Store.parseOrFresh endlessStore.toJson ≠ endlessStore := by
  have hvalid : endlessStore.Valid := ⟨by decide, by decide⟩
  have hread := Store.read?_toJson hvalid (by decide +kernel)
  have hparse : Store.parse endlessStore.toJson = .error .badProfile := by
    rw [Store.parse_toJson hvalid hread]
    rfl
  refine ⟨hvalid, by decide, hparse, fun hfresh => ?_⟩
  rw [Store.parseOrFresh_toJson_eq_iff hvalid hread, hparse] at hfresh
  cases hfresh

end NotePress
