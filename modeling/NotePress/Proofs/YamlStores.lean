import NotePress.Proofs.JsonStores
import NotePress.Proofs.ListedProfiles
import NotePress.Proofs.YamlTokens

/-!
# Stores in YAML

What is read of a YAML text is the tree that was written, but for its numbers: a number of 32 bits
is written in its shortest decimal, and that is read as a number of 64 bits (`Data.widen`). A valid
store is a tree that is laid out (`Store.laid_toData`), so this is what is read of its YAML
(`Store.read?_toYaml`). All other fields of a record are read as they are written, the scale is
rounded back, and so `yaml_restores` gives back every valid store, whatever its names and texts are.
-/

namespace NotePress

namespace Data

variable {number : Floating → Floating}

theorem widen_writeRecord {α : Type} (fields : List (Field α)) (a : α) :
    widen number (writeRecord fields a) =
      .map (fields.map fun f => (.text f.name, widen number (f.get a))) :=
  widen_map fields (·.name) (·.get a)

end Data

namespace Field

variable {α : Type} {number : Floating → Floating} (name : String) (a : α)

@[simp] theorem widen_get_text (get : α → Text) (set : α → Text → α) :
    ((text name get set).get a).widen number = (text name get set).get a := rfl

@[simp] theorem widen_get_optional (get : α → Option Text) (set : α → Option Text → α) :
    ((optional name get set).get a).widen number = (optional name get set).get a := by
  show Data.widen number (((get a).map Data.text).getD .null) = ((get a).map Data.text).getD .null
  cases get a <;> rfl

@[simp] theorem widen_get_texts (get : α → List Text) (set : α → List Text → α) :
    ((texts name get set).get a).widen number = (texts name get set).get a :=
  Data.widen_texts _

@[simp] theorem widen_get_bool (get : α → Bool) (set : α → Bool → α) :
    ((bool name get set).get a).widen number = (bool name get set).get a := rfl

theorem laid_get_text (get : α → Text) (set : α → Text → α) :
    Yaml.Laid ((text name get set).get a) := .leaf trivial

theorem laid_get_optional (get : α → Option Text) (set : α → Option Text → α) :
    Yaml.Laid ((optional name get set).get a) := by
  refine .leaf (show Yaml.IsLeaf (((get a).map Data.text).getD .null) from ?_)
  cases get a <;> trivial

theorem laid_get_texts (get : α → List Text) (set : α → List Text → α) :
    Yaml.Laid ((texts name get set).get a) := by
  refine .list fun d hd => ?_
  obtain ⟨t, -, rfl⟩ := List.mem_map.mp hd
  trivial

theorem laid_get_bool (get : α → Bool) (set : α → Bool → α) :
    Yaml.Laid ((bool name get set).get a) := .leaf trivial

end Field

theorem Labels.widen_toData (number : Floating → Floating) (l : Labels) :
    l.toData.widen number = l.toData := by
  rw [Labels.toData, Data.widen_writeRecord]
  simp [Labels.fields, writeRecord]

/-- A record is laid out if its fields are; their names are keys of one line. -/
theorem Yaml.laid_writeRecord {α : Type} {fields : List (Field α)} {a : α} (hne : fields ≠ [])
    (hnames : (fields.map (·.name)).Nodup)
    (hsimple : ∀ f ∈ fields, Yaml.isSimpleKey (.text f.name) = true)
    (h : ∀ f ∈ fields, Yaml.Laid (f.get a)) : Yaml.Laid (writeRecord fields a) := by
  refine .map (by simpa using hne) (Json.distinctKeys_texts hnames) ?_ ?_ ?_
  all_goals
    intro e he
    obtain ⟨f, hf, rfl⟩ := List.mem_map.mp he
  · exact ⟨f.name, rfl⟩
  · exact fun hlong => absurd (hsimple f hf) (by simp [hlong])
  · exact h f hf

theorem Labels.laid_toData (l : Labels) : Yaml.Laid l.toData := by
  refine Yaml.laid_writeRecord (by simp [fields]) nodup_names (by decide) ?_
  simp [fields, Field.laid_get_text]

theorem Profile.laid_toData {p : Profile} (h : Yaml.IsLeaf (.float single p.imageScale)) :
    Yaml.Laid p.toData := by
  refine Yaml.laid_writeRecord (by simp [fields]) nodup_names (by decide) ?_
  simp [fields, Field.laid_get_text, Field.laid_get_optional, Field.laid_get_texts,
    Field.laid_get_bool, Labels.laid_toData, Yaml.Laid.leaf h]

/-- **A profile is read as it was written** if its scale is rounded back. -/
theorem Profile.ofData?_widen {number : Floating → Floating} {p : Profile}
    (hscale : (number p.imageScale).convert single = p.imageScale) :
    Profile.ofData? .settings (p.toData.widen number) = some p := by
  rw [Profile.toData, Data.widen_writeRecord]
  have hread : Profile.ofData? .settings
      (.map (fields.map fun f => (.text f.name, (f.get p).widen number))) =
      fields.foldlM (fun a f => f.set .settings a ((f.get p).widen number)) {} :=
    readRecord?_fields nodup_names _ {}
  rw [hread]
  simp [fields, Labels.widen_toData, Labels.ofData?_toData, Field.readSingle?, Data.untag, hscale]

namespace Store

variable {s : Store} {number : Floating → Floating}

/-- The tree of a store with its numbers widened. -/
theorem widen_toData (s : Store) : s.toData.widen number =
    .map [(.text "activeProfile".toList, .text s.active),
      (.text "profiles".toList,
        .map (s.profiles.map fun e => (.text e.1, e.2.toData.widen number)))] := by
  have hprofiles := @Data.widen_map number _ s.profiles (·.1) (·.2.toData)
  show Data.map [(_, _), (_, _)] = _
  rw [show Data.widen number (.map (s.profiles.map fun e => (.text e.1, e.2.toData))) = _ from
    hprofiles]
  rfl

/-- **A valid store is laid out** if its scales are numbers in YAML. -/
theorem laid_toData (hs : s.Valid)
    (hscales : ∀ e ∈ s.profiles, Yaml.IsLeaf (.float single e.2.imageScale)) :
    Yaml.Laid s.toData := by
  have hprofiles : Yaml.Laid (.map (s.profiles.map fun e => (.text e.1, e.2.toData))) := by
    refine .map ?_ (Json.distinctKeys_texts hs.1) ?_ ?_ ?_
    · intro hnil
      have hactive := hs.2
      rw [names, List.map_eq_nil_iff.mp hnil] at hactive
      cases hactive
    all_goals
      intro e he
      obtain ⟨p, hp, rfl⟩ := List.mem_map.mp he
    · exact ⟨p.1, rfl⟩
    · exact fun _ => ⟨_, rfl⟩
    · exact Profile.laid_toData (hscales p hp)
  have hsimple : ∀ name ∈ ["activeProfile", "profiles"],
      Yaml.isSimpleKey (.text name.toList) = true := by decide
  refine .map (by simp) rfl ?_ ?_ ?_
  · simp
  · intro e he
    rcases List.mem_cons.mp he with rfl | he
    · exact fun hlong => absurd (hsimple "activeProfile" (by simp)) (by rw [hlong]; decide)
    · obtain rfl := List.mem_singleton.mp he
      exact fun hlong => absurd (hsimple "profiles" (by simp)) (by rw [hlong]; decide)
  · intro e he
    rcases List.mem_cons.mp he with rfl | he
    · exact .leaf trivial
    · obtain rfl := List.mem_singleton.mp he
      exact hprofiles

/-- **The YAML of a valid store is read as the tree that was written**, with its scales widened. -/
theorem read?_toYaml (hs : s.Valid)
    (hscales : ∀ e ∈ s.profiles, Yaml.IsLeaf (.float single e.2.imageScale)) :
    Yaml.read? s.toYaml = some (s.toData.widen Yaml.reread) := by
  have hlaid := laid_toData hs hscales
  exact Yaml.read?_of_tokens? hlaid (nesting_toData s) (Yaml.tokens?_write hlaid)

/-- A valid store is the store of its profiles with its active one. -/
theorem ofProfiles_self (hs : s.Valid) : ofProfiles s.profiles (some s.active) = s := by
  obtain ⟨active, profiles⟩ := s
  have hactive : (profiles.lookup active).isSome = true := isSome_lookup_iff.mpr hs.2
  cases profiles with
  | nil => cases hactive
  | cons e rest => simp [ofProfiles, hactive]

/-- Profiles whose scales are rounded back are read as they were written. -/
theorem ofEntries_widen (hs : s.Valid)
    (hscales : ∀ e ∈ s.profiles, (number e.2.imageScale).convert single = e.2.imageScale) :
    ofEntries [] (s.profiles.map fun e => (.text e.1, e.2.toData.widen number)) =
      .ok s.profiles := by
  have hprofiles : (s.profiles.mapM fun e =>
      (Profile.ofData? .settings (e.2.toData.widen number)).map fun p => (e.1, p)) =
      some s.profiles := by
    refine mapM_eq_self_iff.mpr fun e he => ?_
    rw [Profile.ofData?_widen (hscales e he)]
    rfl
  rw [ofEntries_map (by rw [List.map_nil, List.nil_append]; exact hs.1), hprofiles]
  rfl

end Store

/-- **A store in YAML is read back**, whatever its names and profiles are: provided that of each
scale a number is read that is rounded back to it. -/
theorem yaml_restores {s : Store} (hs : s.Valid)
    (hscales : ∀ e ∈ s.profiles, (Yaml.reread e.2.imageScale).convert single = e.2.imageScale) :
    Store.parse s.toYaml = .ok s := by
  have hread := Store.read?_toYaml hs fun e he => Yaml.isLeaf_float (hscales e he)
  rw [Store.widen_toData] at hread
  rw [Store.parse_of_read?_map hread, Store.profilesOf_of_map rfl,
    Store.ofEntries_widen hs hscales]
  exact congrArg Except.ok (Store.ofProfiles_self hs)

/-- Profiles with names that the format itself uses, and with one that is empty; and one whose scale
is infinite. -/
def oddStore : Store :=
  ⟨" x ".toList, [("profiles".toList, {}), ([], { imageScale := .infinite true }),
    (" x ".toList, { filters := ["a: b".toList], customHeader := "% é\n\n x".toList })]⟩

/-- The names of the odd store are kept. -/
theorem yaml_restores_odd : Store.parse oddStore.toYaml = .ok oddStore :=
  yaml_restores ⟨by decide, by decide⟩ (by decide +kernel)

end NotePress
