import NotePress.Proofs.Validity

/-!
# What a change leaves alone

A change is about one entry. `Store.Changes` says what becomes of the store, by the entries in front
of that entry and behind it: these stay as they are, in their order, and the active name goes with
its entry, or to the first one that is left. In a valid store the changes that can be made are just
these (`Store.apply_eq_ok_iff`, one lemma for each kind of change).

`changes_framed` says what follows for all other entries, for the active name and for the settings
that are active.
-/

namespace NotePress

/-- The names that a change gives or takes, or whose settings it sets. -/
def StoreEvent.names : StoreEvent → List Text
  | .create name _ => [name.trim]
  | .rename name newName => [name, newName.trim]
  | .delete name => [name]
  | .activate _ => []
  | .update name _ => [name]
  | .reset name => [name]

namespace Store

/-- The entries whose names are not among the given ones, in order. -/
def others (s : Store) (names : List Text) : List (Text × Profile) :=
  s.profiles.filter (·.1 ∉ names)

/-- The settings that a new profile begins with: those of a template or the default ones. -/
def settingsFrom (s : Store) : Option Text → Option Profile
  | none => some {}
  | some template => s.get? template

/-- What a change makes of a store. -/
inductive Changes (s : Store) : StoreEvent → Store → Prop where
  /-- A new entry stands behind all others. -/
  | create {name : Text} {template : Option Text} {p : Profile} (hname : name.trim ≠ [])
      (hnew : name.trim ∉ s.names) (hp : s.settingsFrom template = some p) :
      Changes s (.create name template) ⟨s.active, s.profiles ++ [(name.trim, p)]⟩
  /-- An entry has a new name in its place, with the same settings. -/
  | rename {name newName : Text} {p : Profile} {before after : List (Text × Profile)}
      (hname : newName.trim ≠ []) (hentry : s.profiles = before ++ (name, p) :: after)
      (hnew : newName.trim = name ∨ newName.trim ∉ s.names) :
      Changes s (.rename name newName)
        ⟨if s.active = name then newName.trim else s.active,
          before ++ (newName.trim, p) :: after⟩
  /-- An entry is gone that was not active. -/
  | delete {name : Text} {p : Profile} {before after : List (Text × Profile)}
      (hentry : s.profiles = before ++ (name, p) :: after) (hactive : s.active ≠ name) :
      Changes s (.delete name) ⟨s.active, before ++ after⟩
  /-- The active entry is gone, and the first one that is left is active. -/
  | deleteActive {p q : Profile} {first : Text} {before after rest : List (Text × Profile)}
      (hentry : s.profiles = before ++ (s.active, p) :: after)
      (hfirst : before ++ after = (first, q) :: rest) :
      Changes s (.delete s.active) ⟨first, before ++ after⟩
  | activate {name : Text} (hname : name ∈ s.names) :
      Changes s (.activate name) ⟨name, s.profiles⟩
  /-- An entry has new settings in its place. -/
  | update {name : Text} {p q : Profile} {before after : List (Text × Profile)}
      (hentry : s.profiles = before ++ (name, q) :: after) :
      Changes s (.update name p) ⟨s.active, before ++ (name, p) :: after⟩
  | reset {name : Text} {q : Profile} {before after : List (Text × Profile)}
      (hentry : s.profiles = before ++ (name, q) :: after) :
      Changes s (.reset name) ⟨s.active, before ++ (name, {}) :: after⟩

variable {s s' : Store} {name newName : Text} {p q : Profile}
  {entries before after : List (Text × Profile)}

/-! ### One entry and the others -/

/-- An entry with those in front of it and behind it. -/
theorem exists_entry (h : name ∈ s.names) :
    ∃ before p after, s.profiles = before ++ (name, p) :: after := by
  obtain ⟨⟨_, p⟩, hmem, rfl⟩ := List.mem_map.mp h
  obtain ⟨before, after, hsplit⟩ := List.append_of_mem hmem
  exact ⟨before, p, after, hsplit⟩

theorem mem_names_of_entry (hentry : s.profiles = before ++ (name, p) :: after) :
    name ∈ s.names := by
  rw [names, hentry]
  simp

/-- No other entry has the same name. -/
theorem Valid.not_mem_others (h : s.Valid) (hentry : s.profiles = before ++ (name, p) :: after) :
    name ∉ before.map (·.1) ∧ name ∉ after.map (·.1) := by
  have hnodup := h.1
  rw [names, hentry, List.map_append, List.map_cons, List.nodup_middle, List.nodup_cons,
    List.mem_append, not_or] at hnodup
  exact hnodup.1

theorem ne_of_not_mem {e : Text × Profile} (h : name ∉ entries.map (·.1)) (he : e ∈ entries) :
    e.1 ≠ name := fun heq => h (heq ▸ List.mem_map_of_mem he)

/-- An entry with others beside it is not the only one. -/
theorem length_ne_one (hentry : s.profiles = before ++ (name, p) :: after)
    (hothers : before ++ after ≠ []) : s.profiles.length ≠ 1 := by
  intro hlength
  rw [hentry, List.length_append, List.length_cons] at hlength
  refine hothers (List.length_eq_zero_iff.mp ?_)
  rw [List.length_append]
  omega

/-- A name that no entry has is not replaced. -/
theorem map_rename_of_not_mem (h : name ∉ entries.map (·.1)) :
    (entries.map fun e => if e.1 = name then (newName, e.2) else e) = entries :=
  (List.map_congr_left fun _ he => if_neg (ne_of_not_mem h he)).trans (List.map_id _)

/-- The entries with a new name in the place of one. -/
theorem Valid.map_rename_entry (h : s.Valid)
    (hentry : s.profiles = before ++ (name, p) :: after) :
    (s.profiles.map fun e => if e.1 = name then (newName, e.2) else e) =
      before ++ (newName, p) :: after := by
  obtain ⟨hbefore, hafter⟩ := h.not_mem_others hentry
  rw [hentry, List.map_append, List.map_cons, map_rename_of_not_mem hbefore,
    map_rename_of_not_mem hafter, if_pos rfl]

theorem filter_ne_of_not_mem (h : name ∉ entries.map (·.1)) :
    (entries.filter fun e => e.1 ≠ name) = entries :=
  List.filter_eq_self.mpr fun _ he => by simpa using ne_of_not_mem h he

/-- The entries without the one of a name. -/
theorem Valid.filter_entry (h : s.Valid) (hentry : s.profiles = before ++ (name, p) :: after) :
    (s.profiles.filter fun e => e.1 ≠ name) = before ++ after := by
  obtain ⟨hbefore, hafter⟩ := h.not_mem_others hentry
  rw [hentry, List.filter_append, List.filter_cons_of_neg (by simp), filter_ne_of_not_mem hbefore,
    filter_ne_of_not_mem hafter]

/-- Settings are put in place of those of the entry. -/
theorem put_entry (h : name ∉ before.map (·.1)) :
    put (before ++ (name, q) :: after) name p = before ++ (name, p) :: after := by
  induction before with
  | nil => simp [put]
  | cons e rest ih =>
    rw [List.map_cons, List.mem_cons, not_or] at h
    rw [List.cons_append, put, if_neg (Ne.symm h.1), ih h.2]
    rfl

theorem lookup_entry (h : name ∉ before.map (·.1)) :
    (before ++ (name, p) :: after).lookup name = some p := by
  rw [List.lookup_append, Option.not_isSome_iff_eq_none.mp (mt isSome_lookup_iff.mp h),
    Option.none_or, List.lookup_cons_self]

/-- The name of one entry does not matter to the others. -/
theorem lookup_entry_ne {wanted : Text} (h : wanted ≠ name) :
    (before ++ (name, p) :: after).lookup wanted = (before ++ after).lookup wanted := by
  rw [List.lookup_append, List.lookup_append, List.lookup_cons, beq_eq_false_iff_ne.mpr h]

/-! ### The kinds of changes -/

/-- A name is checked by trimming it; nothing must not be left. -/
theorem checkName_bind_eq_ok {α : Type} {f : Text → Except StoreError α} {a : α} :
    (checkName name).bind f = .ok a ↔ name.trim ≠ [] ∧ f name.trim = .ok a := by
  unfold checkName Text.unlessBlank?
  cases name.trim with
  | nil => simp [Except.bind]
  | cons c cs => simp [Except.bind]

theorem create_eq_ok_iff {template : Option Text} :
    s.create name template = .ok s' ↔ s.Changes (.create name template) s' := by
  unfold create
  rw [checkName_bind_eq_ok]
  constructor
  · rintro ⟨hname, h⟩
    split at h
    · cases h
    · rename_i hnew
      have hnew : name.trim ∉ s.names := mt contains_iff.mpr hnew
      split at h
      · cases h
        exact .create hname hnew rfl
      · split at h
        · rename_i hp
          cases h
          exact .create hname hnew hp
        · cases h
  · rintro ⟨hname, hnew, hp⟩
    refine ⟨hname, ?_⟩
    rw [if_neg (mt contains_iff.mp hnew)]
    cases template with
    | none =>
      cases hp
      rfl
    | some t =>
      have hp : s.get? t = some _ := hp
      simp only [hp]

/-- The active name is its own new name. -/
theorem active_of_same : (if s.active = name then name else s.active) = s.active :=
  ite_eq_right_iff.mpr Eq.symm

theorem rename_eq_ok_iff (h : s.Valid) :
    s.rename name newName = .ok s' ↔ s.Changes (.rename name newName) s' := by
  unfold rename
  rw [checkName_bind_eq_ok]
  constructor
  · rintro ⟨hname, hs⟩
    split at hs
    · cases hs
    · rename_i hhas
      obtain ⟨before, p, after, hentry⟩ := exists_entry (contains_iff.mp (by simpa using hhas))
      split at hs
      · rename_i hsame
        -- nothing is renamed, which is the entry with its own name in its place
        have hdone := Changes.rename hname hentry (.inl hsame.symm)
        rw [← hsame, active_of_same, ← hentry] at hdone
        cases hs
        exact hdone
      · split at hs
        · cases hs
        · rename_i hnew
          rw [h.map_rename_entry hentry] at hs
          cases hs
          exact .rename hname hentry (.inr (mt contains_iff.mpr hnew))
  · intro hchanges
    cases hchanges with | @rename _ _ p before after hname hentry hnew => ?_
    have hhas : s.contains name = true := contains_iff.mpr (mem_names_of_entry hentry)
    refine ⟨hname, ?_⟩
    rw [hhas, Bool.not_true, if_neg Bool.false_ne_true]
    by_cases hsame : name = newName.trim
    · rw [if_pos hsame, ← hsame, active_of_same, ← hentry]
    · have hnew : newName.trim ∉ s.names := hnew.resolve_left (Ne.symm hsame)
      rw [if_neg hsame, if_neg (mt contains_iff.mp hnew), h.map_rename_entry hentry]

theorem delete_eq_ok_iff (h : s.Valid) :
    s.delete name = .ok s' ↔ s.Changes (.delete name) s' := by
  unfold delete
  constructor
  · intro hs
    split at hs
    · cases hs
    · rename_i hhas
      obtain ⟨before, p, after, hentry⟩ := exists_entry (contains_iff.mp (by simpa using hhas))
      split at hs
      · cases hs
      · rename_i hmany
        simp only [h.filter_entry hentry] at hs
        split at hs
        · rename_i hactive
          subst hactive
          -- another entry is left, since there is more than one
          cases hfirst : before ++ after with
          | nil =>
            obtain ⟨rfl, rfl⟩ := List.append_eq_nil_iff.mp hfirst
            exact absurd (by rw [hentry]; rfl) hmany
          | cons e rest =>
            have hdone := Changes.deleteActive hentry hfirst
            rw [hfirst] at hs hdone
            cases hs
            exact hdone
        · rename_i hactive
          cases hs
          exact .delete hentry hactive
  · intro hchanges
    cases hchanges with
    | @delete _ p before after hentry hactive =>
      have hothers : before ++ after ≠ [] := by
        intro hnil
        obtain ⟨rfl, rfl⟩ := List.append_eq_nil_iff.mp hnil
        have hmem := h.2
        rw [names, hentry] at hmem
        exact hactive (List.mem_singleton.mp hmem)
      have hhas : s.contains name = true := contains_iff.mpr (mem_names_of_entry hentry)
      simp only [hhas, Bool.not_true, if_neg Bool.false_ne_true,
        if_neg (length_ne_one hentry hothers), h.filter_entry hentry, if_neg hactive]
    | @deleteActive p q first before after rest hentry hfirst =>
      have hothers : before ++ after ≠ [] := hfirst ▸ List.cons_ne_nil _ _
      have hhas : s.contains s.active = true := contains_iff.mpr h.2
      simp only [hhas, Bool.not_true, if_neg Bool.false_ne_true,
        if_neg (length_ne_one hentry hothers), h.filter_entry hentry, if_true, hfirst]
      rfl

theorem activate_eq_ok_iff : s.activate name = .ok s' ↔ s.Changes (.activate name) s' := by
  unfold activate
  constructor
  · intro hs
    split at hs
    · rename_i hhas
      cases hs
      exact .activate (contains_iff.mp hhas)
    · cases hs
  · intro hchanges
    cases hchanges with | activate hname => rw [if_pos (contains_iff.mpr hname)]

theorem update_eq_ok_iff (h : s.Valid) : s.update name p = .ok s' ↔
    ∃ before q after, s.profiles = before ++ (name, q) :: after ∧
      s' = ⟨s.active, before ++ (name, p) :: after⟩ := by
  unfold update
  constructor
  · intro hs
    split at hs
    · rename_i hhas
      obtain ⟨before, q, after, hentry⟩ := exists_entry (contains_iff.mp hhas)
      rw [hentry, put_entry (h.not_mem_others hentry).1] at hs
      cases hs
      exact ⟨before, q, after, hentry, rfl⟩
    · cases hs
  · rintro ⟨before, q, after, hentry, rfl⟩
    rw [if_pos (contains_iff.mpr (mem_names_of_entry hentry)), hentry,
      put_entry (h.not_mem_others hentry).1]

/-- **The changes that can be made** in a valid store. -/
theorem apply_eq_ok_iff (h : s.Valid) (event : StoreEvent) :
    s.apply event = .ok s' ↔ s.Changes event s' := by
  cases event with
  | create name template => exact create_eq_ok_iff
  | rename name newName => exact rename_eq_ok_iff h
  | delete name => exact delete_eq_ok_iff h
  | activate name => exact activate_eq_ok_iff
  | update name p =>
    refine (update_eq_ok_iff h).trans ⟨?_, ?_⟩
    · rintro ⟨before, q, after, hentry, rfl⟩
      exact .update hentry
    · intro hchanges
      cases hchanges with | update hentry => exact ⟨_, _, _, hentry, rfl⟩
  | reset name =>
    refine (update_eq_ok_iff h).trans ⟨?_, ?_⟩
    · rintro ⟨before, q, after, hentry, rfl⟩
      exact .reset hentry
    · intro hchanges
      cases hchanges with | reset hentry => exact ⟨_, _, _, hentry, rfl⟩

/-! ### What stays -/

/-- An entry with one of the given names does not count. -/
theorem filter_entry_of_mem {names : List Text} (h : name ∈ names) :
    (before ++ (name, p) :: after).filter (·.1 ∉ names) =
      before.filter (·.1 ∉ names) ++ after.filter (·.1 ∉ names) := by
  rw [List.filter_append, List.filter_cons_of_neg (by simpa using h)]

/-- **All other entries stay**, in their order. -/
theorem Changes.others_eq {event : StoreEvent} (h : s.Changes event s') :
    s'.others event.names = s.others event.names := by
  unfold others StoreEvent.names
  cases h with
  | create => simp [List.filter_append]
  | rename _ hentry => rw [hentry, filter_entry_of_mem (by simp), filter_entry_of_mem (by simp)]
  | delete hentry => rw [hentry, filter_entry_of_mem (by simp), List.filter_append]
  | deleteActive hentry => rw [hentry, filter_entry_of_mem (by simp), List.filter_append]
  | activate => rfl
  | update hentry => rw [hentry, filter_entry_of_mem (by simp), filter_entry_of_mem (by simp)]
  | reset hentry => rw [hentry, filter_entry_of_mem (by simp), filter_entry_of_mem (by simp)]

/-- Why the active name changes: another profile is made active, or the active one is renamed or
deleted. -/
inductive Moves (s : Store) : StoreEvent → Store → Prop where
  | activated {name : Text} {profiles : List (Text × Profile)} :
      Moves s (.activate name) ⟨name, profiles⟩
  | renamed {newName : Text} {profiles : List (Text × Profile)} :
      Moves s (.rename s.active newName) ⟨newName.trim, profiles⟩
  | deleted {first : Text} {q : Profile} {rest : List (Text × Profile)} :
      Moves s (.delete s.active) ⟨first, (first, q) :: rest⟩

theorem Changes.moves {event : StoreEvent} (h : s.Changes event s')
    (hactive : s'.active ≠ s.active) : s.Moves event s' := by
  cases h with
  | create => exact absurd rfl hactive
  | rename =>
    simp only at hactive
    split at hactive
    · rename_i hname
      subst hname
      rw [if_pos rfl]
      exact .renamed
    · exact absurd rfl hactive
  | delete => exact absurd rfl hactive
  | deleteActive _ hfirst =>
    rw [hfirst]
    exact .deleted
  | activate => exact .activated
  | update => exact absurd rfl hactive
  | reset => exact absurd rfl hactive

/-- Renaming does not change the settings that are active. -/
theorem Changes.activeProfile_eq (h : s.Valid) (hs : s.Changes (.rename name newName) s') :
    s'.activeProfile = s.activeProfile := by
  cases hs with
  | @rename _ _ p before after hname hentry hnew =>
    unfold activeProfile get?
    congr 1
    simp only
    have hbefore := (h.not_mem_others hentry).1
    split
    · rename_i hactive
      have hnewBefore : newName.trim ∉ before.map (·.1) := by
        rcases hnew with hsame | hnew
        · rwa [hsame]
        · refine fun hmem => hnew ?_
          rw [names, hentry, List.map_append]
          exact List.mem_append_left _ hmem
      rw [hactive, hentry, lookup_entry hbefore, lookup_entry hnewBefore]
    · rename_i hactive
      have hne : s.active ≠ newName.trim := by
        rcases hnew with hsame | hnew
        · rwa [hsame]
        · exact fun heq => hnew (heq ▸ h.2)
      rw [hentry, lookup_entry_ne hactive, lookup_entry_ne hne]

end Store

/-- **A change is about the entry that it names.** In a valid store the changes that can be made are
those of `Store.Changes`. The entries of all other names stay, with their settings and in their
order. The active name changes only if a profile is made active, or if the active profile is renamed,
to the trimmed new name, or deleted, to the first name that is left; and renaming never changes the
settings that are active. -/
theorem changes_framed {s : Store} (h : s.Valid) (event : StoreEvent) (s' : Store) :
    (s.apply event = .ok s' ↔ s.Changes event s') ∧
    (s.apply event = .ok s' →
      s'.others event.names = s.others event.names ∧
        (s'.active ≠ s.active → s.Moves event s') ∧
          ∀ name newName, event = .rename name newName →
            s'.activeProfile = s.activeProfile) := by
  have hiff : s.apply event = .ok s' ↔ s.Changes event s' := Store.apply_eq_ok_iff h event
  refine ⟨hiff, fun hs => ?_⟩
  have hchanges := hiff.mp hs
  refine ⟨hchanges.others_eq, hchanges.moves, ?_⟩
  rintro name newName rfl
  exact hchanges.activeProfile_eq h

/-- Three profiles, the middle one active under a name that is not trimmed. -/
def threeProfiles : Store :=
  ⟨" B ".toList, [("A".toList, {}), (" B ".toList, { standalone := false }), ("C".toList, {})]⟩

/-- The active one of three profiles is renamed to its trimmed name. -/
theorem changes_framed_middle :
    let event := StoreEvent.rename " B ".toList " B ".toList
    let s' : Store :=
      ⟨"B".toList, [("A".toList, {}), ("B".toList, { standalone := false }), ("C".toList, {})]⟩
    threeProfiles.Valid ∧
    (threeProfiles.apply event = .ok s' ↔ threeProfiles.Changes event s') ∧
    (threeProfiles.apply event = .ok s' →
      s'.others event.names = threeProfiles.others event.names ∧
        (s'.active ≠ threeProfiles.active → threeProfiles.Moves event s') ∧
          ∀ name newName, event = .rename name newName →
            s'.activeProfile = threeProfiles.activeProfile) :=
  have hvalid : threeProfiles.Valid := ⟨by decide, by decide⟩
  ⟨hvalid, changes_framed hvalid _ _⟩

/-- The change can be made. -/
example : threeProfiles.apply (.rename " B ".toList " B ".toList) =
    .ok ⟨"B".toList,
      [("A".toList, {}), ("B".toList, { standalone := false }), ("C".toList, {})]⟩ := by
  rfl

end NotePress
