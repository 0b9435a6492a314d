import NotePress.Proofs.ListedProfiles
import NotePress.Proofs.Trimming

/-!
# The active one of listed profiles

A settings file with a list says by a name which of its profiles is active. The name is looked up
as it is written among the names that the entries get, and these are trimmed and may be numbered
(`Store.isListedName_of_mem_givenNames`). So there are three cases for the entry that carries the
name. It gets the name, and is active; or the name was given to an entry in front of it, which is
active; or no entry can get such a name, because it is not trimmed or is empty, and the first one is
active (`Store.activeProfile_of_parse`). `listed_active_iff` says when the settings are still those
of the entry.
-/

namespace NotePress

/-- **A name that a list can give**: it is trimmed and not empty. -/
structure IsListedName (name : Text) : Prop where
  trimmed : name.trim = name
  nonempty : name ≠ []

/-- A name with a number is one too. -/
theorem IsListedName.numbered {name : Text} (h : IsListedName name) (n : Nat) :
    IsListedName (Store.numberedName name n) := by
  obtain ⟨c, rest, rfl⟩ := List.exists_cons_of_ne_nil h.nonempty
  have hhead := @Text.isBlank_of_head?_trim (c :: rest)
  rw [h.trimmed] at hhead
  refine ⟨Text.trim_eq_self ?_ ?_, by simp [Store.numberedName]⟩
  · rintro _ ⟨⟩
    exact hhead c rfl
  · intro last hlast
    rw [Store.numberedName, List.getLast?_append] at hlast
    cases hlast
    rfl

namespace Store

variable {taken : List Text} {name active : Text} {place : Nat} {d : Data} {items : List Data}

/-! ### Names that a list gives -/

theorem isListedName_byPlace (place : Nat) :
    IsListedName ("Profile ".toList ++ Text.ofNat place) := by
  refine ⟨Text.trim_eq_self ?_ ?_, by simp⟩
  · rintro _ ⟨⟩
    rfl
  · intro last hlast
    rw [List.getLast?_append_of_ne_nil _ (Text.ofNat_ne_nil place)] at hlast
    exact Text.isBlank_of_isDigit (Text.isDigit_of_mem_ofNat (List.mem_of_getLast? hlast))

theorem isListedName_wantedName (place : Nat) (d : Data) : IsListedName (wantedName place d) := by
  rw [wantedName, splitEntry_fst]
  cases hname : (writtenName? d).bind Text.unlessBlank? with
  | none => exact isListedName_byPlace place
  | some name =>
    obtain ⟨written, -, hname⟩ := Option.bind_eq_some_iff.mp hname
    unfold Text.unlessBlank? at hname
    split at hname
    · cases hname
    · rename_i c rest htrim
      cases hname
      exact ⟨by rw [Option.getD_some, ← htrim, Text.trim_trim], by simp⟩

theorem isListedName_freeName (h : IsListedName name) : IsListedName (freeName taken name) := by
  unfold freeName
  simp only
  cases hfind : (name :: (List.range' 2 taken.length).map (numberedName name)).find?
      fun n => !taken.contains n with
  | none => exact h
  | some found =>
    rcases List.mem_cons.mp (List.mem_of_find?_eq_some hfind) with rfl | hmem
    · exact h
    · obtain ⟨n, -, rfl⟩ := List.mem_map.mp hmem
      exact h.numbered n

/-- **All names that a list gives are trimmed and not empty.** -/
theorem isListedName_of_mem_givenNames (h : name ∈ givenNames taken place items) :
    IsListedName name := by
  induction items generalizing taken place with
  | nil => cases h
  | cons d rest ih =>
    rcases List.mem_cons.mp h with rfl | h
    · exact isListedName_freeName (isListedName_wantedName place d)
    · exact ih h

/-- **An entry keeps the name it carries** if a list can give the name and it is free. -/
theorem freeName_wantedName_iff (hd : writtenName? d = some active) :
    freeName taken (wantedName place d) = active ↔ IsListedName active ∧ active ∉ taken := by
  constructor
  · intro h
    refine ⟨?_, ?_⟩
    · rw [← h]
      exact isListedName_freeName (isListedName_wantedName place d)
    · rw [← h]
      exact freeName_not_mem taken _
  · rintro ⟨hlisted, hfree⟩
    rw [wantedName_of_trim hd hlisted.trimmed hlisted.nonempty, freeName_of_not_mem hfree]

/-! ### The active profile -/

theorem lookup_of_getElem? {profiles : List (Text × Profile)} {p : Profile} {i : Nat}
    (hnodup : (profiles.map (·.1)).Nodup) (h : profiles[i]? = some (name, p)) :
    profiles.lookup name = some p := by
  induction profiles generalizing i with
  | nil => cases h
  | cons e rest ih =>
    obtain ⟨hnew, hrest⟩ := List.nodup_cons.mp hnodup
    cases i with
    | zero =>
      cases h
      simp
    | succ i =>
      rw [List.getElem?_cons_succ] at h
      have hmem : name ∈ rest.map (·.1) := List.mem_map_of_mem (List.mem_of_getElem? h)
      have hne : (name == e.1) = false := by
        rw [beq_eq_false_iff_ne]
        rintro rfl
        exact hnew hmem
      rw [List.lookup_cons, hne]
      exact ih hrest h

/-- The store of some profiles has one with the wanted name active. -/
theorem activeProfile_ofProfiles_of_getElem? {profiles : List (Text × Profile)} {p : Profile}
    {i : Nat} (hnodup : (profiles.map (·.1)).Nodup) (h : profiles[i]? = some (active, p)) :
    (ofProfiles profiles (some active)).activeProfile = p := by
  have hlookup := lookup_of_getElem? hnodup h
  cases profiles with
  | nil => cases h
  | cons e rest => simp [ofProfiles, activeProfile, get?, hlookup]

/-- Without one its first profile is active. -/
theorem activeProfile_ofProfiles_of_not_mem {e : Text × Profile} {rest : List (Text × Profile)}
    (h : active ∉ (e :: rest).map (·.1)) :
    (ofProfiles (e :: rest) (some active)).activeProfile = e.2 := by
  have hlookup : ((e :: rest).lookup active).isSome = false := by
    rw [Bool.eq_false_iff, Ne, isSome_lookup_iff]
    exact h
  obtain ⟨name, p⟩ := e
  simp [ofProfiles, activeProfile, get?, hlookup]

variable {t : Text} {entries : List (Data × Data)} {s : Store}

/-- **The active profile of a list**: the one that got the wanted name, else the first one. -/
theorem activeProfile_of_parse (hread : Yaml.read? t = some (.map entries))
    (hlist : Data.get? "profiles".toList entries = some (.list items))
    (hactive : activeName? entries = some active) (hparse : parse t = .ok s) (hne : items ≠ []) :
    (∀ (i : Nat) (p : Profile), s.profiles[i]? = some (active, p) → s.activeProfile = p) ∧
      (active ∉ s.names → s.profiles.head?.map (·.2) = some s.activeProfile) := by
  obtain ⟨ps, -, -, hnames, hs⟩ := exists_profiles_of_parse hread hlist hparse hne
  rw [hactive] at hs
  constructor
  · intro i p hp
    rw [hs]
    exact activeProfile_ofProfiles_of_getElem? (valid_of_parse hparse).1 hp
  · intro hout
    cases hprofiles : s.profiles with
    | nil =>
      rw [names, hprofiles, List.map_nil] at hnames
      exact absurd (List.length_eq_zero_iff.mp (by rw [← length_givenNames [] 1, ← hnames]; rfl)) hne
    | cons e rest =>
      rw [names, hprofiles] at hout
      rw [hs, hprofiles, activeProfile_ofProfiles_of_not_mem hout]
      rfl

end Store

/-- **When the active profile is that of the entry which carries its name.** A list whose settings
file names an active profile, and which has an entry that carries this name, is read to a store
whose active profile has the settings of the first such entry exactly when a list can give the name
and no entry in front of it got it; or one did, with the same settings; or a list cannot give the
name, and the first entry has the same settings. -/
theorem listed_active_iff {t active : Text} {entries : List (Data × Data)} {items : List Data}
    {s : Store} {k : Nat} (hread : Yaml.read? t = some (.map entries))
    (hlist : Data.get? "profiles".toList entries = some (.list items))
    (hactive : Store.activeName? entries = some active) (hparse : Store.parse t = .ok s)
    (hfirst : items.findIdx? (fun d => Store.writtenName? d = some active) = some k) :
    ∃ d p, items[k]? = some d ∧ Store.profileOf (Store.splitEntry d).2 = .ok p ∧
      (s.activeProfile = p ↔
        (IsListedName active ∧ active ∉ s.names.take k) ∨
        (∃ j < k, s.profiles[j]? = some (active, p)) ∨
        (¬ IsListedName active ∧ s.profiles.head?.map (·.2) = some p)) := by
  obtain ⟨hk, hd, -⟩ := List.findIdx?_eq_some_iff_getElem.mp hfirst
  have hd' := List.getElem?_eq_getElem hk
  have hne : items ≠ [] := List.ne_nil_of_length_pos (Nat.zero_lt_of_lt hk)
  obtain ⟨p, hp, hsettings⟩ := Store.exists_profile_of_parse hread hlist hparse hd'
  obtain ⟨htaken, hmissing⟩ := Store.activeProfile_of_parse hread hlist hactive hparse hne
  obtain ⟨-, -, -, hnames, -⟩ := Store.exists_profiles_of_parse hread hlist hparse hne
  refine ⟨items[k], p, hd', hsettings, ?_⟩
  by_cases hlisted : IsListedName active
  · by_cases hfree : active ∈ s.names.take k
    · -- an entry in front of it got the name
      obtain ⟨j, hj, q, hq⟩ : ∃ j < k, ∃ q, s.profiles[j]? = some (active, q) := by
        obtain ⟨⟨_, q⟩, he, rfl⟩ := List.mem_map.mp (List.map_take ▸ hfree)
        obtain ⟨j, hj, hq⟩ := List.mem_take_iff_getElem.mp he
        exact ⟨j, by omega, q, by rw [List.getElem?_eq_getElem (by omega), hq]⟩
      rw [htaken j q hq]
      constructor
      · rintro rfl
        exact .inr (.inl ⟨j, hj, hq⟩)
      · rintro (⟨-, hnot⟩ | ⟨i, -, hi⟩ | ⟨hnot, -⟩)
        · exact absurd hfree hnot
        · rw [← htaken j q hq, htaken i p hi]
        · exact absurd hlisted hnot
    · -- it got the name itself
      rw [(Store.freeName_wantedName_iff (by simpa using hd)).mpr ⟨hlisted, hfree⟩] at hp
      exact iff_of_true (htaken k p hp) (.inl ⟨hlisted, hfree⟩)
  · -- no entry has the name, and the first one is active
    have hout : active ∉ s.names := fun hmem =>
      hlisted (Store.isListedName_of_mem_givenNames (hnames ▸ hmem))
    rw [hmissing hout, Option.some_inj]
    constructor
    · exact fun h => .inr (.inr ⟨hlisted, h⟩)
    · rintro (⟨h, -⟩ | ⟨j, -, hj⟩ | ⟨-, h⟩)
      · exact absurd h hlisted
      · exact htaken j p hj
      · exact h

/-- A settings file with a list in which a profile is active. -/
def activeFile (active : Text) (items : List Data) : List (Data × Data) :=
  [(.text "activeProfile".toList, .text active), (.text "profiles".toList, .list items)]

/-- Two profiles of one name, with different settings. -/
def twinItems : List Data :=
  [.map [(.text "latexEngine".toList, .text "tectonic".toList)],
   .map [(.text "name".toList, .text "Profile 1 (2)".toList)],
   .map [(.text "name".toList, .text "Profile 1 (2)".toList),
     (.text "standalone".toList, .bool false)]]

/-- The first of two entries with the name is active. -/
theorem listed_active_iff_twins : ∃ s p,
    Store.parse (Json.writePretty 0 (.map (activeFile "Profile 1 (2)".toList twinItems))) = .ok s ∧
      Store.profileOf (.map []) = .ok p ∧ s.activeProfile = p := by
  have hread : Yaml.read? (Json.writePretty 0 (.map (activeFile "Profile 1 (2)".toList twinItems))) =
      some (.map (activeFile "Profile 1 (2)".toList twinItems)) :=
    (Json.read?_writePretty (by decide +kernel) (by decide +kernel)).trans rfl
  obtain ⟨s, hparse, hnames⟩ : ∃ s,
      Store.parse (Json.writePretty 0 (.map (activeFile "Profile 1 (2)".toList twinItems))) = .ok s ∧
      s.names.take 1 = ["Profile 1".toList] := by
    rw [Store.parse_of_read?_map hread]
    exact ⟨_, rfl, by decide +kernel⟩
  obtain ⟨d, p, hd, hsettings, hiff⟩ :=
    listed_active_iff (k := 1) hread rfl rfl hparse (by decide +kernel)
  cases hd
  have hlisted : IsListedName "Profile 1 (2)".toList := ⟨by decide, by decide⟩
  exact ⟨s, p, hparse, hsettings, hiff.mpr (.inl ⟨hlisted, by rw [hnames]; decide⟩)⟩

/-- Two profiles, of which the second has blanks around its name. -/
def paddedItems : List Data :=
  [.map [(.text "name".toList, .text "A".toList)],
   .map [(.text "name".toList, .text " B ".toList),
     (.text "latexEngine".toList, .text "lualatex".toList)]]

/-- **The active entry is lost**: its name is trimmed, and under the name as it is written there is
no profile, so the first one is active. -/
theorem listed_active_lost : ∃ s p,
    Store.parse (Json.writePretty 0 (.map (activeFile " B ".toList paddedItems))) = .ok s ∧
      paddedItems.findIdx? (fun d => Store.writtenName? d = some " B ".toList) = some 1 ∧
      Store.profileOf (.map [(.text "latexEngine".toList, .text "lualatex".toList)]) = .ok p ∧
      s.active = "A".toList ∧ s.activeProfile ≠ p := by
  have hread : Yaml.read? (Json.writePretty 0 (.map (activeFile " B ".toList paddedItems))) =
      some (.map (activeFile " B ".toList paddedItems)) :=
    (Json.read?_writePretty (by decide +kernel) (by decide +kernel)).trans rfl
  rw [Store.parse_of_read?_map hread]
  exact ⟨_, _, rfl, by decide +kernel, rfl, by decide +kernel, by decide +kernel⟩

end NotePress
