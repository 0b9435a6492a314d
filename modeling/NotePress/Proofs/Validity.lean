import Mathlib.Data.List.Nodup
import NotePress.Proofs.Digits
import NotePress.Store.Event
import NotePress.Store.Persistence

/-!
# Stores stay valid

However a store comes about, its names are distinct and the active one is among them; and every
change keeps that. The loading paths differ in how they come to distinct names: profiles by name
are put in place of the one that has the name, and entries of a list get a name that is free, which
exists because one more names are tried than are taken (`Store.freeName_not_mem`). A change either
adds a name that is new, renames to one, or keeps the names or a part of them; the active name
follows (`Store.valid_of_apply`).

`reached_stores_valid` says it of every store that can be reached.
-/

namespace NotePress

namespace Store

variable {s s' : Store} {name : Text} {profiles : List (Text × Profile)} {p : Profile}

/-! ### Names -/

theorem isSome_lookup_iff : (profiles.lookup name).isSome ↔ name ∈ profiles.map (·.1) := by
  simp [List.lookup_isSome_iff]

/-- A new name behind distinct ones. -/
theorem nodup_append_name {names : List Text} (h : names.Nodup) (hnew : name ∉ names) :
    (names ++ [name]).Nodup := by
  rw [← List.concat_eq_append]
  exact h.concat hnew

/-- A store contains its names. -/
theorem contains_iff : s.contains name = true ↔ name ∈ s.names := isSome_lookup_iff

/-- Putting a profile under a name that is there keeps the names. -/
theorem names_put_of_mem (h : name ∈ profiles.map (·.1)) :
    (put profiles name p).map (·.1) = profiles.map (·.1) := by
  induction profiles with
  | nil => cases h
  | cons e rest ih =>
    unfold put
    split
    · rename_i heq
      simp [heq]
    · rename_i hne
      rcases List.mem_cons.mp h with rfl | h
      · exact absurd rfl hne
      · rw [List.map_cons, ih h, List.map_cons]

/-- A profile under a new name is put behind all others. -/
theorem put_of_not_mem (h : name ∉ profiles.map (·.1)) :
    put profiles name p = profiles ++ [(name, p)] := by
  induction profiles with
  | nil => rfl
  | cons e rest ih =>
    rw [List.map_cons, List.mem_cons, not_or] at h
    rw [put, if_neg (Ne.symm h.1), ih h.2]
    rfl

theorem nodup_put (h : (profiles.map (·.1)).Nodup) : ((put profiles name p).map (·.1)).Nodup := by
  by_cases hmem : name ∈ profiles.map (·.1)
  · rwa [names_put_of_mem hmem]
  · rw [put_of_not_mem hmem, List.map_append]
    exact nodup_append_name h hmem

/-! ### Free names -/

/-- Different numbers make different names. -/
theorem numberedName_injective (name : Text) : Function.Injective (numberedName name) := by
  intro m n h
  unfold numberedName at h
  rw [List.append_cancel_right_eq, List.append_cancel_left_eq] at h
  exact Text.ofNat_injective h

theorem ne_numberedName (name : Text) (n : Nat) : name ≠ numberedName name n := by
  intro h
  have := congrArg List.length h
  simp [numberedName] at this

/-- **The name that is found is free**: of one more names than are taken, one is. -/
theorem freeName_not_mem (taken : List Text) (name : Text) : freeName taken name ∉ taken := by
  have hnodup : (name :: (List.range' 2 taken.length).map (numberedName name)).Nodup := by
    refine List.nodup_cons.mpr ⟨fun h => ?_, ?_⟩
    · obtain ⟨n, -, hn⟩ := List.mem_map.mp h
      exact ne_numberedName name n hn.symm
    · exact (List.nodup_range' ..).map (numberedName_injective name)
  unfold freeName
  simp only
  cases hfind : (name :: (List.range' 2 taken.length).map (numberedName name)).find?
      fun n => !taken.contains n with
  | some free =>
    have := List.find?_some hfind
    simpa using this
  | none =>
    have hsub : name :: (List.range' 2 taken.length).map (numberedName name) ⊆ taken := by
      intro n hn
      simpa using List.find?_eq_none.mp hfind n hn
    have hlength := hnodup.length_le_of_subset hsub
    rw [List.length_cons, List.length_map, List.length_range'] at hlength
    omega

/-! ### Loading -/

/-- The store of profiles with distinct names is valid. -/
theorem valid_ofProfiles (h : (profiles.map (·.1)).Nodup) (active : Option Text) :
    (ofProfiles profiles active).Valid := by
  unfold ofProfiles
  split
  · exact ⟨List.nodup_singleton _, List.mem_singleton_self _⟩
  · simp only
    split
    · refine ⟨h, ?_⟩
      simp only
      split
      · rename_i hfound
        exact isSome_lookup_iff.mp hfound
      · exact List.mem_cons_self ..
    · exact ⟨h, List.mem_cons_self ..⟩

/-- Profiles read by name have distinct names. -/
theorem nodup_of_ofEntries {entries : List (Data × Data)} {read : List (Text × Profile)}
    (hstart : (profiles.map (·.1)).Nodup) (h : ofEntries profiles entries = .ok read) :
    (read.map (·.1)).Nodup := by
  induction entries generalizing profiles with
  | nil =>
    cases h
    exact hstart
  | cons e rest ih =>
    unfold ofEntries at h
    split at h
    · cases h
    · cases hp : profileOf e.2 with
      | error cause =>
        rw [hp] at h
        cases h
      | ok p =>
        rw [hp] at h
        exact ih (nodup_put hstart) h

/-- Profiles read from a list have distinct names. -/
theorem nodup_of_ofList {place : Nat} {items : List Data} {read : List (Text × Profile)}
    (hstart : (profiles.map (·.1)).Nodup) (h : ofList profiles place items = .ok read) :
    (read.map (·.1)).Nodup := by
  induction items generalizing profiles place with
  | nil =>
    cases h
    exact hstart
  | cons d rest ih =>
    unfold ofList at h
    simp only at h
    cases hp : profileOf (splitEntry d).2 with
    | error cause =>
      rw [hp] at h
      cases h
    | ok p =>
      rw [hp] at h
      refine ih ?_ h
      rw [List.map_append]
      exact nodup_append_name hstart (freeName_not_mem _ _)

/-- The profiles of a settings file have distinct names. -/
theorem nodup_of_profilesOf {entries : List (Data × Data)} {read : List (Text × Profile)}
    (h : profilesOf entries = .ok read) : (read.map (·.1)).Nodup := by
  unfold profilesOf at h
  split at h
  · cases hp : profileOf (.map (Data.without "activeProfile".toList entries)) with
    | error cause =>
      rw [hp] at h
      cases h
    | ok p =>
      rw [hp] at h
      cases h
      exact List.nodup_singleton _
  · exact nodup_of_ofList (by simp) h
  · exact nodup_of_ofEntries (by simp) h
  · cases h

theorem valid_fresh : fresh.Valid := ⟨List.nodup_singleton _, List.mem_singleton_self _⟩

/-- **A settings file that can be read holds a valid store**, in each of its shapes. -/
theorem valid_of_parse {t : Text} (h : parse t = .ok s) : s.Valid := by
  unfold parse at h
  split at h
  · unfold ofData at h
    split at h
    · cases h
      exact valid_fresh
    · rename_i entries _
      simp only at h
      cases hp : profilesOf entries with
      | error cause =>
        rw [hp] at h
        cases h
      | ok profiles =>
        rw [hp] at h
        cases h
        exact valid_ofProfiles (nodup_of_profilesOf hp) _
    · cases h
  · cases h

theorem valid_parseOrFresh (t : Text) : (parseOrFresh t).Valid := by
  unfold parseOrFresh
  split
  · rename_i h
    exact valid_of_parse h
  · exact valid_fresh

theorem valid_load (d : Disk) (path : Text) : (load d path).Valid := by
  unfold load
  split
  · exact valid_parseOrFresh _
  · exact valid_fresh

/-! ### Changes -/

/-- A profile behind all others, under a name that is new. -/
theorem Valid.append (h : s.Valid) (hnew : name ∉ s.names) :
    Valid { s with profiles := s.profiles ++ [(name, p)] } := by
  have hnames : names { s with profiles := s.profiles ++ [(name, p)] } = s.names ++ [name] :=
    List.map_append
  refine ⟨?_, ?_⟩
  · rw [hnames]
    exact nodup_append_name h.1 hnew
  · rw [hnames]
    exact List.mem_append_left _ h.2

theorem valid_of_create {template : Option Text} (h : s.Valid)
    (hs : s.create name template = .ok s') : s'.Valid := by
  unfold create at hs
  cases hname : checkName name with
  | error e =>
    rw [hname] at hs
    cases hs
  | ok name =>
    rw [hname] at hs
    simp only [Except.bind] at hs
    split at hs
    · cases hs
    · rename_i hnew
      have hnew : name ∉ s.names := fun hmem => hnew (contains_iff.mpr hmem)
      split at hs
      · cases hs
        exact h.append hnew
      · split at hs
        · cases hs
          exact h.append hnew
        · cases hs

/-- Renaming maps the names. -/
theorem valid_of_rename {newName : Text} (h : s.Valid) (hs : s.rename name newName = .ok s') :
    s'.Valid := by
  unfold rename at hs
  cases hname : checkName newName with
  | error e =>
    rw [hname] at hs
    cases hs
  | ok newName =>
    rw [hname] at hs
    simp only [Except.bind] at hs
    split at hs
    · cases hs
    split at hs
    · cases hs
      exact h
    split at hs
    · cases hs
    · rename_i _ hne hnew
      have hnew : newName ∉ s.names := fun hmem => hnew (contains_iff.mpr hmem)
      cases hs
      have hnames : (s.profiles.map fun e => if e.1 = name then (newName, e.2) else e).map (·.1) =
          s.names.map fun n => if n = name then newName else n := by
        unfold names
        rw [List.map_map, List.map_map]
        refine List.map_congr_left fun e _ => ?_
        show (if e.1 = name then (newName, e.2) else e).1 = if e.1 = name then newName else e.1
        split <;> rfl
      refine ⟨?_, ?_⟩
      · show List.Nodup (List.map _ _)
        rw [hnames]
        refine h.1.map_on fun m hm n hn he => ?_
        split at he <;> split at he
        · rename_i hm' hn'
          rw [hm', hn']
        · exact absurd (he ▸ hn) hnew
        · exact absurd (he ▸ hm) hnew
        · exact he
      · show (if s.active = name then newName else s.active) ∈ List.map _ _
        rw [hnames]
        exact List.mem_map.mpr ⟨s.active, h.2, rfl⟩

theorem valid_of_delete (h : s.Valid) (hs : s.delete name = .ok s') : s'.Valid := by
  unfold delete at hs
  split at hs
  · cases hs
  split at hs
  · cases hs
  · rename_i hhas hmany
    have hhas : name ∈ s.names := contains_iff.mp (by simpa using hhas)
    cases hs
    have hnames : (s.profiles.filter fun e => e.1 ≠ name).map (·.1) = s.names.filter (· ≠ name) := by
      rw [names, List.filter_map]
      rfl
    refine ⟨?_, ?_⟩
    · show List.Nodup (List.map _ _)
      rw [hnames]
      exact h.1.filter _
    · show (if s.active = name then _ else _) ∈ List.map _ _
      rw [← List.head?_map, hnames]
      split
      · -- the first of the other names is there, since the one that goes is not the only one
        cases hothers : s.names.filter (· ≠ name) with
        | cons first rest => exact List.mem_cons_self ..
        | nil =>
          have hall : s.names ⊆ [name] := fun n hn => by
            simpa using List.filter_eq_nil_iff.mp hothers n hn
          have hle := h.1.length_le_of_subset hall
          have hpos := List.length_pos_of_mem hhas
          rw [names, List.length_map] at hle hpos
          rw [List.length_singleton] at hle
          omega
      · rename_i hne
        exact List.mem_filter.mpr ⟨h.2, by simpa using hne⟩

theorem valid_of_activate (h : s.Valid) (hs : s.activate name = .ok s') : s'.Valid := by
  unfold activate at hs
  split at hs
  · rename_i hhas
    cases hs
    exact ⟨h.1, contains_iff.mp hhas⟩
  · cases hs

theorem valid_of_update (h : s.Valid) (hs : s.update name p = .ok s') : s'.Valid := by
  unfold update at hs
  split at hs
  · rename_i hhas
    cases hs
    have hnames : names { s with profiles := put s.profiles name p } = s.names :=
      names_put_of_mem (contains_iff.mp hhas)
    exact ⟨hnames ▸ h.1, hnames ▸ h.2⟩
  · cases hs

/-- **Every change keeps a store valid.** -/
theorem valid_of_apply {event : StoreEvent} (h : s.Valid) (hs : s.apply event = .ok s') :
    s'.Valid := by
  cases event with
  | create name template => exact valid_of_create h hs
  | rename name newName => exact valid_of_rename h hs
  | delete name => exact valid_of_delete h hs
  | activate name => exact valid_of_activate h hs
  | update name p => exact valid_of_update h hs
  | reset name => exact valid_of_update h hs

/-! ### Stores that can be reached -/

/-- How a store comes about: as a fresh one, from a profile, from profiles whose names are distinct,
or by reading a settings file. -/
inductive Loaded : Store → Prop where
  | fresh : Loaded fresh
  | singleton (name : Text) (p : Profile) : Loaded (singleton name p)
  | ofProfiles {profiles : List (Text × Profile)} (h : (profiles.map (·.1)).Nodup)
      (active : Option Text) : Loaded (ofProfiles profiles active)
  | parse {t : Text} {s : Store} (h : parse t = .ok s) : Loaded s
  | parseOrFresh (t : Text) : Loaded (parseOrFresh t)
  | load (d : Disk) (path : Text) : Loaded (load d path)

theorem Loaded.valid (h : Loaded s) : s.Valid := by
  cases h with
  | fresh => exact valid_fresh
  | singleton name p => exact ⟨List.nodup_singleton _, List.mem_singleton_self _⟩
  | ofProfiles h active => exact valid_ofProfiles h active
  | parse h => exact valid_of_parse h
  | parseOrFresh t => exact valid_parseOrFresh t
  | load d path => exact valid_load d path

/-- The store after a change; one that cannot be made leaves it as it was. -/
def afterOne (s : Store) (event : StoreEvent) : Store :=
  match s.apply event with
  | .ok s' => s'
  | .error _ => s

/-- The store after some changes. -/
def after (s : Store) (events : List StoreEvent) : Store := events.foldl afterOne s

theorem valid_afterOne (h : s.Valid) (event : StoreEvent) : (s.afterOne event).Valid := by
  unfold afterOne
  split
  · rename_i hs
    exact valid_of_apply h hs
  · exact h

theorem valid_after (h : s.Valid) (events : List StoreEvent) : (s.after events).Valid := by
  induction events generalizing s with
  | nil => exact h
  | cons event rest ih => exact ih (valid_afterOne h event)

/-- The active profile of a valid store is there. -/
theorem Valid.get?_active (h : s.Valid) : s.get? s.active = some s.activeProfile := by
  obtain ⟨p, hp⟩ := Option.isSome_iff_exists.mp (contains_iff.mpr h.2)
  rw [activeProfile, hp, Option.getD_some]

end Store

/-- **Every store that can be reached is valid**: however it comes about and whatever changes are
made or refused, it has a profile, its names are distinct, the active one is among them and has a
profile, and a further change that can be made leads to a store with its active profile. -/
theorem reached_stores_valid {s : Store} (h : s.Loaded) (events : List StoreEvent) :
    (s.after events).profiles ≠ [] ∧ (s.after events).Valid ∧
      (s.after events).get? (s.after events).active = some (s.after events).activeProfile ∧
      ∀ event s', (s.after events).apply event = .ok s' → s'.contains s'.active := by
  have hvalid := Store.valid_after h.valid events
  refine ⟨fun hnone => ?_, hvalid, hvalid.get?_active, fun event s' hs => ?_⟩
  · have hactive := hvalid.2
    rw [Store.names, hnone] at hactive
    cases hactive
  · exact Store.contains_iff.mpr (Store.valid_of_apply hvalid hs).2

/-- Two profiles, none of them with the name that is said to be active. -/
def twoProfiles : Store := .ofProfiles [("A".toList, {}), ("B".toList, {})] (some "C".toList)

/-- The active profile is renamed, a name is taken, and of the two profiles one can be deleted. -/
def twoProfileEvents : List StoreEvent :=
  [.rename "A".toList " D ".toList, .create "B".toList none, .delete "B".toList, .delete "D".toList]

/-- Two profiles of which one is deleted. -/
theorem reached_stores_valid_two :
    (twoProfiles.after twoProfileEvents).profiles ≠ [] ∧
      (twoProfiles.after twoProfileEvents).Valid ∧
      (twoProfiles.after twoProfileEvents).get? (twoProfiles.after twoProfileEvents).active =
        some (twoProfiles.after twoProfileEvents).activeProfile ∧
      ∀ event s', (twoProfiles.after twoProfileEvents).apply event = .ok s' →
        s'.contains s'.active :=
  reached_stores_valid (s := twoProfiles) (.ofProfiles (by decide) _) _

/-- The name that is left is the new one, less its blanks. -/
example : twoProfiles.after twoProfileEvents = .singleton "D".toList {} := by cbv

end NotePress
