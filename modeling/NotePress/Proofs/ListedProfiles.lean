import NotePress.Proofs.JsonNodes
import NotePress.Proofs.Lists
import NotePress.Proofs.Validity

/-!
# Profiles from a list

A settings file may hold its profiles as a list of entries that carry their names. An entry asks
for the name it carries, trimmed, or for one by its place (`Store.wantedName`), and gets the first
free one in the row of that name and its numbered forms. `Store.Search` is this search try by try;
it ends, because the tries are distinct and one more of them is made than names are taken
(`Store.search_freeName`).

The names do not depend on the settings, so a list is read in two independent parts: the names of
all entries, and their settings (`Store.ofList_eq`). From this `listed_profiles_kept` reads off that
no entry is lost, and that a list whose names are fit for a map is read as the map.
-/

namespace NotePress

namespace Store

/-! ### Free names -/

/-- **A search for a free name**, try by try: a candidate that is free is found, and one that is
taken is followed by the name with the next number. The last place counts the candidates that were
taken. -/
inductive Search (taken : List Text) (name : Text) :
    (candidate : Text) → (next : Nat) → (found : Text) → (refused : Nat) → Prop where
  | free {candidate : Text} {next : Nat} (h : candidate ∉ taken) :
      Search taken name candidate next candidate 0
  | taken {candidate found : Text} {next refused : Nat} (h : candidate ∈ taken)
      (later : Search taken name (numberedName name next) (next + 1) found refused) :
      Search taken name candidate next found (refused + 1)

variable {taken : List Text} {name : Text}

/-- What is found first among some candidates is found by the search. -/
theorem search_of_find? {candidate found : Text} {next tries : Nat}
    (h : (candidate :: (List.range' next tries).map (numberedName name)).find?
      (fun n => !taken.contains n) = some found) :
    ∃ refused ≤ tries, Search taken name candidate next found refused := by
  induction tries generalizing candidate next with
  | zero =>
    by_cases hmem : candidate ∈ taken
    · simp [hmem] at h
    · rw [List.find?_cons_of_pos (by simpa using hmem)] at h
      cases h
      exact ⟨0, Nat.le_refl _, .free hmem⟩
  | succ tries ih =>
    by_cases hmem : candidate ∈ taken
    · rw [List.find?_cons_of_neg (by simpa using hmem), List.range'_succ, List.map_cons] at h
      obtain ⟨refused, hle, hsearch⟩ := ih h
      exact ⟨refused + 1, Nat.succ_le_succ hle, .taken hmem hsearch⟩
    · rw [List.find?_cons_of_pos (by simpa using hmem)] at h
      cases h
      exact ⟨0, Nat.zero_le _, .free hmem⟩

/-- **The search for a free name ends**, after at most as many refusals as names are taken. -/
theorem search_freeName (taken : List Text) (name : Text) :
    ∃ refused ≤ taken.length, Search taken name name 2 (freeName taken name) refused := by
  refine search_of_find? ?_
  have hfree := freeName_not_mem taken name
  unfold freeName at hfree ⊢
  simp only at hfree ⊢
  cases hfind : (name :: (List.range' 2 taken.length).map (numberedName name)).find?
      fun n => !taken.contains n with
  | some found => rfl
  | none =>
    rw [hfind] at hfree
    have hname := List.find?_eq_none.mp hfind name (List.mem_cons_self ..)
    exact absurd (by simpa using hname) hfree

theorem freeName_of_not_mem (h : name ∉ taken) : freeName taken name = name := by
  unfold freeName
  simp only
  rw [List.find?_cons_of_pos (by simpa using h), Option.getD_some]

/-! ### Names of entries -/

/-- The name that an entry carries, as it is written. -/
def writtenName? (d : Data) : Option Text :=
  match d.untag with
  | .map entries => (Data.get? "name".toList entries).bind Data.text?
  | _ => none

theorem splitEntry_fst (d : Data) : (splitEntry d).1 = (writtenName? d).bind Text.unlessBlank? := by
  unfold splitEntry writtenName?
  cases d.untag <;> rfl

/-- The name that an entry asks for: the one it carries, trimmed, or one by its place. -/
def wantedName (place : Nat) (d : Data) : Text :=
  (splitEntry d).1.getD ("Profile ".toList ++ Text.ofNat place)

/-- The names that entries get, one after the other. -/
def givenNames : (taken : List Text) → (place : Nat) → List Data → List Text
  | _, _, [] => []
  | taken, place, d :: rest =>
    let name := freeName taken (wantedName place d)
    name :: givenNames (taken ++ [name]) (place + 1) rest

theorem length_givenNames (taken : List Text) (place : Nat) (items : List Data) :
    (givenNames taken place items).length = items.length := by
  induction items generalizing taken place with
  | nil => rfl
  | cons d rest ih => rw [givenNames, List.length_cons, ih, List.length_cons]

/-- The name at a place is free among those in front of it. -/
theorem getElem?_givenNames {place i : Nat} {items : List Data} {d : Data}
    (h : items[i]? = some d) : (givenNames taken place items)[i]? =
      some (freeName (taken ++ (givenNames taken place items).take i)
        (wantedName (place + i) d)) := by
  induction items generalizing taken place i with
  | nil => cases h
  | cons e rest ih =>
    cases i with
    | zero =>
      cases h
      simp [givenNames]
    | succ i =>
      rw [List.getElem?_cons_succ] at h
      rw [givenNames, List.getElem?_cons_succ, ih h, List.take_succ_cons, List.append_assoc,
        Nat.add_right_comm, Nat.add_assoc]
      rfl

theorem ofList_cons (profiles : List (Text × Profile)) (place : Nat) (d : Data) (rest : List Data) :
    ofList profiles place (d :: rest) = (profileOf (splitEntry d).2).bind fun p =>
      ofList (profiles ++ [(freeName (profiles.map (·.1)) (wantedName place d), p)]) (place + 1)
        rest := rfl

/-- **The names of the entries and their settings are read apart.** -/
theorem ofList_eq (profiles : List (Text × Profile)) (place : Nat) (items : List Data) :
    ofList profiles place items =
      (items.mapM fun d => profileOf (splitEntry d).2).map fun ps =>
        profiles ++ (givenNames (profiles.map (·.1)) place items).zip ps := by
  induction items generalizing profiles place with
  | nil =>
    rw [ofList, List.mapM_nil]
    exact congrArg Except.ok (List.append_nil _).symm
  | cons d rest ih =>
    rw [ofList_cons, List.mapM_cons]
    cases hp : profileOf (splitEntry d).2 with
    | error cause => rfl
    | ok p =>
      simp only [Except.bind, ih]
      show _ = Except.map _ (Except.bind (rest.mapM _) _)
      cases rest.mapM fun d => profileOf (splitEntry d).2 with
      | error cause => rfl
      | ok ps => simp [Except.map, Except.bind, pure, Except.pure, givenNames, wantedName]

/-! ### Settings files -/

/-- The name that a settings file says to be active. -/
def activeName? (entries : List (Data × Data)) : Option Text :=
  (Data.get? "activeProfile".toList entries).bind Data.text?

variable {t : Text} {entries : List (Data × Data)} {items : List Data} {s : Store}

theorem parse_of_read?_map (hread : Yaml.read? t = some (.map entries)) :
    parse t = (profilesOf entries).map fun profiles => ofProfiles profiles (activeName? entries) := by
  unfold parse
  rw [hread]
  rfl

theorem profilesOf_of_list (hlist : Data.get? "profiles".toList entries = some (.list items)) :
    profilesOf entries = ofList [] 1 items := by
  unfold profilesOf
  rw [hlist]

theorem profilesOf_of_map {named : List (Data × Data)}
    (hmap : Data.get? "profiles".toList entries = some (.map named)) :
    profilesOf entries = ofEntries [] named := by
  unfold profilesOf
  rw [hmap]

/-- A list that can be read holds settings at each place, and the store has them under the names
that the entries get. -/
theorem exists_settings_of_parse (hread : Yaml.read? t = some (.map entries))
    (hlist : Data.get? "profiles".toList entries = some (.list items)) (hparse : parse t = .ok s) :
    ∃ ps, List.Forall₂ (fun d p => profileOf (splitEntry d).2 = .ok p) items ps ∧
      s = ofProfiles ((givenNames [] 1 items).zip ps) (activeName? entries) := by
  rw [parse_of_read?_map hread, profilesOf_of_list hlist, ofList_eq] at hparse
  cases hps : items.mapM fun d => profileOf (splitEntry d).2 with
  | error cause =>
    rw [hps] at hparse
    cases hparse
  | ok ps =>
    rw [hps] at hparse
    cases hparse
    exact ⟨ps, forall₂_of_mapM hps, rfl⟩

theorem profiles_ofProfiles {profiles : List (Text × Profile)} (h : profiles ≠ [])
    (active : Option Text) : (ofProfiles profiles active).profiles = profiles := by
  obtain ⟨e, rest, rfl⟩ := List.exists_cons_of_ne_nil h
  cases active <;> rfl

/-- The profiles of a store that was read from a list with entries; the active one is chosen among
them. -/
theorem exists_profiles_of_parse (hread : Yaml.read? t = some (.map entries))
    (hlist : Data.get? "profiles".toList entries = some (.list items)) (hparse : parse t = .ok s)
    (hne : items ≠ []) :
    ∃ ps, List.Forall₂ (fun d p => profileOf (splitEntry d).2 = .ok p) items ps ∧
      s.profiles = (givenNames [] 1 items).zip ps ∧ s.names = givenNames [] 1 items ∧
      s = ofProfiles s.profiles (activeName? entries) := by
  obtain ⟨ps, hps, rfl⟩ := exists_settings_of_parse hread hlist hparse
  have hlength : (givenNames [] 1 items).length = ps.length := by
    rw [length_givenNames, hps.length_eq]
  have hsome : (givenNames [] 1 items).zip ps ≠ [] := List.ne_nil_of_length_pos (by
    rw [List.length_zip, ← hlength, Nat.min_self, length_givenNames]
    exact List.length_pos_of_ne_nil hne)
  have hprofiles := profiles_ofProfiles hsome (activeName? entries)
  refine ⟨ps, hps, hprofiles, ?_, by rw [hprofiles]⟩
  rw [names, hprofiles]
  exact List.map_fst_zip (Nat.le_of_eq hlength)

/-- **Each entry has its profile**, at its place and under the name that it gets there. -/
theorem exists_profile_of_parse {i : Nat} {d : Data} (hread : Yaml.read? t = some (.map entries))
    (hlist : Data.get? "profiles".toList entries = some (.list items)) (hparse : parse t = .ok s)
    (hd : items[i]? = some d) :
    ∃ p, s.profiles[i]? = some (freeName (s.names.take i) (wantedName (i + 1) d), p) ∧
      profileOf (splitEntry d).2 = .ok p := by
  have hne : items ≠ [] := by
    rintro rfl
    cases hd
  obtain ⟨ps, hps, hprofiles, hnames, -⟩ := exists_profiles_of_parse hread hlist hparse hne
  obtain ⟨hi, rfl⟩ := List.getElem?_eq_some_iff.mp hd
  have hi' : i < ps.length := hps.length_eq ▸ hi
  refine ⟨ps[i], ?_, (List.forall₂_iff_get.mp hps).2 i hi hi'⟩
  rw [hprofiles, hnames, List.getElem?_zip_eq_some, getElem?_givenNames hd, List.nil_append,
    Nat.add_comm]
  exact ⟨rfl, List.getElem?_eq_getElem hi'⟩

/-! ### Lists and maps -/

/-- **The same profiles by name**: each entry of a list carries a name that is trimmed and not
empty, and a map has under this name what else the entry holds. -/
def NamedAlike (items : List Data) (named : List (Data × Data)) : Prop :=
  List.Forall₂ (fun d e => ∃ name, writtenName? d = some name ∧ name.trim = name ∧ name ≠ [] ∧
    e.1.text? = some name ∧ e.2 = (splitEntry d).2) items named

theorem wantedName_of_trim {place : Nat} {d : Data} {name : Text} (h : writtenName? d = some name)
    (htrim : name.trim = name) (hne : name ≠ []) : wantedName place d = name := by
  rw [wantedName, splitEntry_fst, h, Option.bind_some, Text.unlessBlank?_of_trim htrim hne,
    Option.getD_some]

/-- **A list whose names are distinct and fit for a map is read as the map.** -/
theorem ofList_eq_ofEntries {profiles : List (Text × Profile)} {place : Nat}
    {named : List (Data × Data)} (h : NamedAlike items named)
    (hdistinct : (profiles.map (fun e => some e.1) ++ items.map writtenName?).Nodup) :
    ofList profiles place items = ofEntries profiles named := by
  induction h generalizing profiles place with
  | nil => rfl
  | @cons d e rest named hd _ ih =>
    obtain ⟨key, value⟩ := e
    obtain ⟨name, hname, htrim, hne, hkey, rfl⟩ := hd
    rw [List.map_cons, hname] at hdistinct
    have hnew : name ∉ profiles.map (·.1) := fun hmem => by
      have hdisjoint := List.disjoint_of_nodup_append hdistinct
      obtain ⟨e, he, rfl⟩ := List.mem_map.mp hmem
      exact hdisjoint (List.mem_map_of_mem he) (List.mem_cons_self ..)
    rw [ofList_cons, wantedName_of_trim hname htrim hne, freeName_of_not_mem hnew, ofEntries]
    simp only [hkey]
    cases profileOf (splitEntry d).2 with
    | error cause => rfl
    | ok p =>
      simp only [Except.bind, put_of_not_mem hnew]
      exact ih (by simpa using hdistinct)

end Store

/-- **A list of profiles is read without loss.** If a settings file with a list is read at all, the
names of the store are distinct, there is one profile for each entry, in their order, and each has
the settings of its entry without the name. Its own name is where the search for a free one ends
among the names in front of it; and an empty list gives the fresh store. A map that has the same
profiles under names that are trimmed, not empty and distinct is read as the same store, and is
refused if the list is. -/
theorem listed_profiles_kept {t : Text} {entries : List (Data × Data)} {items : List Data}
    (hread : Yaml.read? t = some (.map entries))
    (hlist : Data.get? "profiles".toList entries = some (.list items)) :
    (∀ s, Store.parse t = .ok s → s.names.Nodup ∧ (items = [] → s = .fresh) ∧
      (items ≠ [] → s.profiles.length = items.length) ∧
      ∀ i d, items[i]? = some d → ∃ name p refused, s.profiles[i]? = some (name, p) ∧
        Store.profileOf (Store.splitEntry d).2 = .ok p ∧ refused ≤ i ∧
        Store.Search (s.names.take i) (Store.wantedName (i + 1) d) (Store.wantedName (i + 1) d) 2
          name refused) ∧
    ∀ t' entries' named, Yaml.read? t' = some (.map entries') →
      Data.get? "profiles".toList entries' = some (.map named) →
      Store.activeName? entries' = Store.activeName? entries →
      Store.NamedAlike items named → (items.map Store.writtenName?).Nodup →
      Store.parse t' = Store.parse t := by
  refine ⟨fun s hparse => ⟨(Store.valid_of_parse hparse).1, ?_, fun hne => ?_, fun i d hd => ?_⟩,
    fun t' entries' named hread' hmap hactive halike hdistinct => ?_⟩
  · rintro rfl
    obtain ⟨ps, -, rfl⟩ := Store.exists_settings_of_parse hread hlist hparse
    rfl
  · obtain ⟨ps, hps, hprofiles, -⟩ := Store.exists_profiles_of_parse hread hlist hparse hne
    rw [hprofiles, List.length_zip, Store.length_givenNames, hps.length_eq, Nat.min_self]
  · obtain ⟨p, hp, hsettings⟩ := Store.exists_profile_of_parse hread hlist hparse hd
    obtain ⟨refused, hle, hsearch⟩ := Store.search_freeName (s.names.take i) _
    exact ⟨_, p, refused, hp, hsettings, hle.trans (List.length_take_le ..), hsearch⟩
  · rw [Store.parse_of_read?_map hread', Store.parse_of_read?_map hread,
      Store.profilesOf_of_map hmap, Store.profilesOf_of_list hlist, hactive,
      Store.ofList_eq_ofEntries halike (by simpa using hdistinct)]

/-- A list with a name that is missing, one that stands twice, and ones that entries in front of them
get. -/
def collidingItems : List Data :=
  [.map [(.text "name".toList, .text "A".toList)],
   .map [(.text "latexEngine".toList, .text "tectonic".toList)],
   .map [(.text "name".toList, .text "A".toList)],
   .map [(.text "name".toList, .text " A (2) ".toList), (.text "standalone".toList, .bool false)],
   .map [(.text "name".toList, .text "Profile 2".toList)]]

/-- The settings file of the list. -/
def collidingFile : List (Data × Data) :=
  [(.text "activeProfile".toList, .text "A (2)".toList),
   (.text "profiles".toList, .list collidingItems)]

/-- Two profiles with names that are fit for a map. -/
def pairItems : List Data :=
  [.map [(.text "name".toList, .text "Paper".toList)],
   .map [(.text "latexEngine".toList, .text "lualatex".toList),
     (.text "name".toList, .text "Slides".toList)]]

/-- The same profiles by name. -/
def pairEntries : List (Data × Data) :=
  [(.text "Paper".toList, .map []),
   (.text "Slides".toList, .map [(.text "latexEngine".toList, .text "lualatex".toList)])]

/-- A settings file with two profiles. -/
def pairFile (profiles : Data) : List (Data × Data) :=
  [(.text "profiles".toList, profiles), (.text "activeProfile".toList, .text "Slides".toList)]

/-- Names that collide get numbers, and a list and a map with the same two profiles are one store. -/
theorem listed_profiles_kept_colliding :
    (∃ s, Store.parse (Json.writePretty 0 (.map collidingFile)) = .ok s ∧
      s.names = ["A", "Profile 2", "A (2)", "A (2) (2)", "Profile 2 (2)"].map String.toList ∧
      s.profiles.length = collidingItems.length ∧
      ∀ i d, collidingItems[i]? = some d → ∃ name p refused, s.profiles[i]? = some (name, p) ∧
        Store.profileOf (Store.splitEntry d).2 = .ok p ∧ refused ≤ i ∧
        Store.Search (s.names.take i) (Store.wantedName (i + 1) d) (Store.wantedName (i + 1) d) 2
          name refused) ∧
    Store.parse (Json.writePretty 0 (.map (pairFile (.map pairEntries)))) =
      Store.parse (Json.writePretty 0 (.map (pairFile (.list pairItems)))) := by
  have hcolliding : Yaml.read? (Json.writePretty 0 (.map collidingFile)) =
      some (.map collidingFile) :=
    (Json.read?_writePretty (by decide +kernel) (by decide +kernel)).trans rfl
  have hlist : Yaml.read? (Json.writePretty 0 (.map (pairFile (.list pairItems)))) =
      some (.map (pairFile (.list pairItems))) :=
    (Json.read?_writePretty (by decide +kernel) (by decide +kernel)).trans rfl
  have hmap : Yaml.read? (Json.writePretty 0 (.map (pairFile (.map pairEntries)))) =
      some (.map (pairFile (.map pairEntries))) :=
    (Json.read?_writePretty (by decide +kernel) (by decide +kernel)).trans rfl
  have halike : Store.NamedAlike pairItems pairEntries :=
    .cons ⟨"Paper".toList, rfl, by decide, by decide, rfl, rfl⟩
      (.cons ⟨"Slides".toList, rfl, by decide, by decide, rfl, rfl⟩ .nil)
  refine ⟨?_, (listed_profiles_kept hlist rfl).2 _ _ _ hmap rfl rfl halike (by decide)⟩
  have hparse : ∃ s, Store.parse (Json.writePretty 0 (.map collidingFile)) = .ok s ∧
      s.names = ["A", "Profile 2", "A (2)", "A (2) (2)", "Profile 2 (2)"].map String.toList := by
    rw [Store.parse_of_read?_map hcolliding]
    exact ⟨_, rfl, by decide +kernel⟩
  obtain ⟨s, hparse, hnames⟩ := hparse
  obtain ⟨-, -, hlength, hprofiles⟩ := (listed_profiles_kept hcolliding rfl).1 s hparse
  exact ⟨s, hparse, hnames, hlength (by simp [collidingItems]), hprofiles⟩

end NotePress
