import NotePress.Link.Resolver
import NotePress.Proofs.Enclosure

/-!
# Files that a listing names

A listing of a vault goes over files and gives each an id, by the names from the vault's directory
on. The path of a document goes back: it joins the segments of the id onto the directory. Ids are
written with slashes, so a backslash in a name, which a file system allows, becomes a cut there, and
no id leads back to such a file.

`Vault.listed_files_found_iff` says that nothing else is lost: on a disk without links
(`Disk.IsTree`), the id of a listed file leads to it exactly when no name below the vault's
directory has a backslash. A path that folds to the file has room for what the id joins
(`Path.byteLength_ofNames_folded_le`), so the limit on paths is no other case.
-/

namespace NotePress

/-! ### Paths of names -/

namespace Path

variable {names : List Text} {n : Text}

theorem ofNames_singleton (n : Text) : ofNames [n] = '/' :: n := by simp [ofNames, Text.join]

theorem ofNames_append {front back : List Text} (hfront : front ≠ []) (hback : back ≠ []) :
    ofNames (front ++ back) = ofNames front ++ ofNames back := by
  unfold ofNames
  rw [Text.join_append _ hfront hback, List.append_assoc]
  rfl

theorem getLast?_ofNames (h : ∀ n ∈ names, IsName n) (hne : names ≠ []) :
    (ofNames names).getLast? ≠ some '/' := by
  rcases List.eq_nil_or_concat names with rfl | ⟨above, last, rfl⟩
  · exact absurd rfl hne
  · rw [List.concat_eq_append] at h ⊢
    have hlast := h last (by simp)
    have hend : (ofNames (above ++ [last])).getLast? = last.getLast? := by
      by_cases habove : above = []
      · subst habove
        rw [List.nil_append, ofNames_singleton, List.getLast?_cons_of_ne_nil hlast.ne_nil]
      · rw [ofNames_append habove (by simp), ofNames_singleton,
          List.getLast?_append_of_ne_nil _ (by simp), List.getLast?_cons_of_ne_nil hlast.ne_nil]
    rw [hend]
    exact fun hslash => hlast.no_slash (List.mem_of_getLast? hslash)

/-- A name that is joined onto the path of a directory goes behind its names. -/
theorem join_ofNames (h : ∀ n ∈ names, IsName n) (hn : IsName n) :
    join (ofNames names) n = ofNames (names ++ [n]) := by
  unfold join
  rw [isAbsolute_of_no_slash hn.no_slash, if_neg Bool.false_ne_true]
  by_cases hne : names = []
  · subst hne
    rw [if_pos (.inr rfl)]
    simp [ofNames, Text.join]
  · have hpath : ofNames names ≠ [] := List.cons_ne_nil _ _
    rw [if_neg (not_or.mpr ⟨hpath, getLast?_ofNames h hne⟩), ofNames_append hne (by simp),
      ofNames_singleton]

theorem foldl_join_ofNames {below : List Text} (h : ∀ n ∈ names, IsName n)
    (hbelow : ∀ n ∈ below, IsName n) :
    below.foldl join (ofNames names) = ofNames (names ++ below) := by
  induction below generalizing names with
  | nil => rw [List.append_nil]; rfl
  | cons n rest ih =>
    have hn := hbelow n (List.mem_cons_self ..)
    have hnames : ∀ m ∈ names ++ [n], IsName m := by
      intro m hm
      rcases List.mem_append.mp hm with hm | hm
      · exact h m hm
      · exact List.mem_singleton.mp hm ▸ hn
    rw [List.foldl_cons, join_ofNames h hn, ih hnames fun m hm => hbelow m
      (List.mem_cons_of_mem _ hm), List.append_assoc, List.singleton_append]

/-- The bytes of names, each with a slash in front. -/
def weight (names : List Text) : Nat := (names.map fun n => Text.byteLength n + 1).sum

theorem byteLength_ofNames (hne : names ≠ []) : Text.byteLength (ofNames names) = weight names := by
  have hslash : ('/' : Char).utf8Size = 1 := by decide
  induction names with
  | nil => exact absurd rfl hne
  | cons n rest ih =>
    have hfirst : Text.byteLength (ofNames [n]) = Text.byteLength n + 1 := by
      rw [ofNames_singleton, Text.byteLength_cons]
      omega
    by_cases hrest : rest = []
    · subst hrest
      rw [hfirst]
      simp [weight]
    · rw [← List.singleton_append, ofNames_append (by simp) hrest, Text.byteLength_append, hfirst,
        ih hrest]
      simp only [weight, List.singleton_append, List.map_cons, List.sum_cons]

theorem weight_follow_le (names : List Text) (segment : Text) :
    weight (follow names segment) ≤ weight names + (Text.byteLength segment + 1) := by
  unfold follow weight
  split
  · exact Nat.le_add_right _ _
  · split
    · rcases List.eq_nil_or_concat names with rfl | ⟨above, last, rfl⟩
      · exact Nat.zero_le _
      · rw [List.concat_eq_append, List.dropLast_concat, List.map_append, List.sum_append]
        omega
    · simp

theorem weight_foldl_follow_le (names segments : List Text) :
    weight (segments.foldl follow names) ≤ weight names + weight segments := by
  induction segments generalizing names with
  | nil => exact Nat.le_add_right _ _
  | cons s rest ih =>
    have hstep := weight_follow_le names s
    have hrest := ih (follow names s)
    rw [List.foldl_cons]
    simp only [weight, List.map_cons, List.sum_cons] at hstep hrest ⊢
    omega

/-- **Folding makes no path longer.** -/
theorem byteLength_ofNames_folded_le {path : Text} (h : isAbsolute path = true) :
    Text.byteLength (ofNames (folded path)) ≤ Text.byteLength path := by
  obtain ⟨behind, rfl⟩ := List.head?_eq_some_iff.mp (of_decide_eq_true h)
  have hpieces : ofNames (behind.splitOn '/') = '/' :: behind :=
    congrArg ('/' :: ·) (Text.join_splitOn '/' behind)
  have hfolded : folded ('/' :: behind) = (behind.splitOn '/').foldl follow [] := by
    unfold folded
    rw [← List.nil_append ('/' :: behind), List.splitOn_append_cons_self, List.foldl_append]
    rfl
  have hle := weight_foldl_follow_le [] (behind.splitOn '/')
  rw [← byteLength_ofNames (List.splitOn_ne_nil _ _), hpieces, ← hfolded] at hle
  by_cases hne : folded ('/' :: behind) = []
  · rw [hne]
    exact Nat.add_le_add_left (Nat.zero_le _) _
  · rw [byteLength_ofNames hne]
    exact hle.trans (Nat.zero_add _).le

end Path

/-! ### Trees of files -/

namespace Disk

variable {d : Disk} {names : List Text} {e : Entry}

/-- A disk without links, with names that a file system allows: each path stands there once, and
nothing stands below a file. -/
structure IsTree (d : Disk) : Prop where
  names : ∀ e ∈ d.entries, ∀ n ∈ e.1,
    Path.IsName n ∧ '\x00' ∉ n ∧ Text.byteLength n ≤ nameLimit
  once : (d.entries.map (·.1)).Nodup
  leaves : ∀ file ∈ d.entries, file.2 ≠ .directory →
    ∀ e ∈ d.entries, file.1 <+: e.1 → e.1 = file.1

instance (d : Disk) : Decidable d.IsTree :=
  decidable_of_iff ((∀ e ∈ d.entries, ∀ n ∈ e.1,
      Path.IsName n ∧ '\x00' ∉ n ∧ Text.byteLength n ≤ nameLimit) ∧
      (d.entries.map (·.1)).Nodup ∧ ∀ file ∈ d.entries, file.2 ≠ .directory →
        ∀ e ∈ d.entries, file.1 <+: e.1 → e.1 = file.1)
    ⟨fun ⟨hnames, honce, hleaves⟩ => ⟨hnames, honce, hleaves⟩,
      fun h => ⟨h.names, h.once, h.leaves⟩⟩

theorem IsTree.wellNamed (h : d.IsTree) : d.WellNamed := fun e he n hn => (h.names e he n hn).1

theorem IsTree.entry?_of_mem (h : d.IsTree) (hmem : (names, e) ∈ d.entries) (hne : names ≠ []) :
    d.entry? names = some e := by
  have hlookup : d.entries.lookup names = some e := by
    obtain ⟨front, behind, hsplit⟩ := List.append_of_mem hmem
    have honce := h.once
    rw [hsplit, List.map_append, List.map_cons] at honce
    rw [hsplit, List.lookup_append, List.lookup_eq_none_iff.mpr fun p hp => ?_]
    · simp
    · have hdisjoint := (List.nodup_append.mp honce).2.2 p.1 (List.mem_map_of_mem hp) names
        (List.mem_cons_self ..)
      simpa using Ne.symm hdisjoint
  obtain ⟨n, rest, rfl⟩ := List.exists_cons_of_ne_nil hne
  unfold entry?
  rw [hlookup]

/-- Above what stands on the disk there are directories. -/
theorem IsTree.entry?_above (h : d.IsTree) {n : Text} {rest : List Text}
    (hmem : (names ++ n :: rest, e) ∈ d.entries) : d.entry? names = some .directory := by
  cases names with
  | nil => rfl
  | cons first above =>
    by_cases hthere : ∃ found, (first :: above, found) ∈ d.entries
    · obtain ⟨found, hfound⟩ := hthere
      rw [h.entry?_of_mem hfound (List.cons_ne_nil _ _)]
      by_contra hfile
      have hsame := h.leaves _ hfound (fun hdir => hfile (congrArg some hdir)) _ hmem
        (List.prefix_append _ _)
      simp at hsame
    · have hlookup : d.entries.lookup (first :: above) = none :=
        List.lookup_eq_none_iff.mpr fun p hp => by
          have hne : first :: above ≠ p.1 := fun heq => hthere ⟨p.2, by rw [heq]; exact hp⟩
          simpa using hne
      have hbelow : d.entries.any (fun e => (first :: above).isPrefixOf e.1) = true := by
        refine List.any_eq_true.mpr ⟨_, hmem, ?_⟩
        exact List.isPrefixOf_iff_prefix.mpr (List.prefix_append _ _)
      unfold entry?
      rw [hlookup]
      simp only [hbelow, if_true]

/-- Names lead to what stands there or further down. -/
theorem IsTree.walk (h : d.IsTree) {above below further : List Text}
    (hmem : (above ++ (below ++ further), e) ∈ d.entries) :
    d.walk above below = .ok (above ++ below) := by
  induction below generalizing above with
  | nil => rw [List.append_nil]; rfl
  | cons n rest ih =>
    have hrest : (above ++ [n] ++ (rest ++ further), e) ∈ d.entries := by
      rwa [List.append_assoc, List.singleton_append]
    have hthere : (d.entry? (above ++ [n])).isSome = true := by
      by_cases hlast : rest ++ further = []
      · rw [hlast, List.append_nil] at hrest
        rw [h.entry?_of_mem hrest (by simp)]
        rfl
      · obtain ⟨next, behind, hnext⟩ := List.exists_cons_of_ne_nil hlast
        rw [hnext] at hrest
        rw [h.entry?_above hrest]
        rfl
    obtain ⟨hname, -, hshort⟩ := h.names _ hmem n (by simp)
    have hstep : d.step above n = .ok (above ++ [n]) := by
      unfold step
      simp only [h.entry?_above hmem]
      rw [if_neg (by simp [hname.ne_nil, hname.ne_dot]), if_neg hname.ne_up,
        if_neg (Nat.not_lt_of_le hshort), if_pos hthere]
    unfold Disk.walk
    rw [hstep]
    exact (ih hrest).trans (by rw [List.append_assoc, List.singleton_append])

theorem pathFault?_eq_none_iff {path : Text} : pathFault? path = none ↔
    path ≠ [] ∧ '\x00' ∉ path ∧ Text.byteLength path ≤ pathLimit := by
  unfold pathFault?
  by_cases hne : path = []
  · simp [hne]
  · by_cases hnul : '\x00' ∈ path
    · simp [hne, hnul]
    · simp [hne, hnul]

/-- A path that leads somewhere has nothing wrong with it. -/
theorem pathFault?_of_locate {path : Text} (h : d.locate path = .ok names) :
    pathFault? path = none := by
  unfold locate at h
  split at h
  · cases h
  · assumption

theorem byteLength_le_of_locate {path : Text} (h : d.locate path = .ok names) :
    Text.byteLength path ≤ pathLimit :=
  (pathFault?_eq_none_iff.mp (pathFault?_of_locate h)).2.2

/-- The slash in front of a path leaves an empty name, which stays at the root. -/
theorem walk_root (d : Disk) (names : List Text) : d.walk [] ([] :: names) = d.walk [] names := by
  have hroot : d.step [] [] = .ok [] := by simp [step, entry?]
  rw [Disk.walk, hroot]
  rfl

theorem IsTree.locate_ofNames (h : d.IsTree) (hmem : (names, e) ∈ d.entries) (hne : names ≠ [])
    (hfits : Text.byteLength (Path.ofNames names) ≤ pathLimit) :
    d.locate (Path.ofNames names) = .ok names := by
  have hnul : '\x00' ∉ Path.ofNames names := by
    unfold Path.ofNames
    simp only [List.mem_cons, not_or]
    exact ⟨by decide, Text.not_mem_join _ (by decide) fun n hn => (h.names _ hmem n hn).2.1⟩
  have hfault : pathFault? (Path.ofNames names) = none :=
    pathFault?_eq_none_iff.mpr ⟨List.cons_ne_nil _ _, hnul, hfits⟩
  unfold locate
  rw [hfault, Path.splitOn_ofNames (h.wellNamed _ hmem) hne]
  simp only [walk_root]
  have hwhole : ([] ++ (names ++ []), e) ∈ d.entries := by rwa [List.append_nil]
  exact h.walk hwhole

/-- Bytes as a text, or the error of a file that is none. -/
def asText (bytes : List UInt8) : Except AccessError Text :=
  match Text.decode? bytes with
  | some t => .ok t
  | none => .error .notText

end Disk

/-- The names of a course are segments. -/
theorem Course.mem_of_mem_names {segments : List Text} {n : Text} (h : n ∈ (of segments).names) :
    n ∈ segments := by
  induction segments using List.reverseRecOn with
  | nil => cases h
  | append_singleton segments s ih =>
    rw [of, List.foldl_append, List.foldl_cons, List.foldl_nil, follow] at h
    split at h
    · exact List.mem_append_left _ (ih h)
    · split at h
      · split at h
        · cases h
        · exact List.mem_append_left _ (ih (List.dropLast_subset _ h))
      · rcases List.mem_append.mp h with h | h
        · exact List.mem_append_left _ (ih h)
        · exact List.mem_append_right _ h

/-! ### Listed files -/

namespace Vault

variable {v : Vault} {within : Option Text} {names below : List Text} {bytes : List UInt8}
  {id : DocumentId}

/-- A listing comes by the file of these names, and gives it this id. -/
def Lists (v : Vault) (within : Option Text) (names : List Text) (id : DocumentId) : Prop :=
  ∃ path ∈ v.listedPaths within, v.disk.locate path = .ok names ∧ v.idOfNames names = some id

/-- **An id finds a file**: there is a document of this id, its path is the path of the file and
leads there, and what is read is the text of the file. -/
structure Finds (v : Vault) (id : DocumentId) (names : List Text) (bytes : List UInt8) : Prop where
  contains : v.contains id = true
  path : v.locationOf id = Path.ofNames names
  leads : v.disk.locate (v.locationOf id) = .ok names
  reads : v.read id = Disk.asText bytes

theorem mem_list_iff_lists (hdisk : v.disk.WellNamed) :
    id ∈ v.list within ↔ ∃ names, v.Lists within names id := by
  rw [mem_list_iff]
  constructor
  · rintro ⟨path, hpath, hid⟩
    have habsolute := (exists_file_of_mem_listedPaths hdisk hpath).1
    exact ⟨_, path, hpath, (idAt_eq_some_iff habsolute).mp hid⟩
  · rintro ⟨names, path, hpath, hlocate, hid⟩
    have habsolute := (exists_file_of_mem_listedPaths hdisk hpath).1
    obtain rfl := Disk.locate_eq_ok hlocate
    exact ⟨path, hpath, (idAt_eq_some_iff habsolute).mpr ⟨hlocate, hid⟩⟩

/-- A listed file stands below the vault's directory, and its path is not too long. -/
theorem Lists.exists_file (hdisk : v.disk.WellNamed) (h : v.Lists within names id) :
    ∃ bytes below, (names, .file bytes) ∈ v.disk.entries ∧ names = v.directory ++ below ∧
      below ≠ [] ∧ id = .ofPath (Text.join ['/'] below) ∧
      Text.byteLength (Path.ofNames names) ≤ Disk.pathLimit := by
  obtain ⟨path, hpath, hlocate, hid⟩ := h
  obtain ⟨habsolute, bytes, hfile⟩ := exists_file_of_mem_listedPaths hdisk hpath
  obtain rfl := Disk.locate_eq_ok hlocate
  have hfits := (Path.byteLength_ofNames_folded_le habsolute).trans
    (Disk.byteLength_le_of_locate hlocate)
  unfold idOfNames at hid
  split at hid
  · rename_i n rest hinside
    cases hid
    exact ⟨bytes, n :: rest, hfile, (List.append_eq_of_isPrefixOf?_eq_some hinside).symm,
      List.cons_ne_nil _ _, rfl, hfits⟩
  · cases hid

/-- An id never leads to a file below the directory with a backslash in a name. -/
theorem backslash_not_mem_of_leads (hv : ∀ n ∈ v.directory, Path.IsName n)
    (h : v.disk.locate (v.locationOf id) = .ok (v.directory ++ below)) : ∀ n ∈ below, '\\' ∉ n := by
  intro n hn hback
  have hcourse := Disk.locate_eq_ok h
  rw [folded_locationOf hv, Course.startingAt] at hcourse
  -- What the course keeps of the directory is no longer than the directory.
  have hnames : n ∈ id.course.names := by
    rcases List.append_eq_append_iff.mp hcourse with ⟨middle, hkept, hsame⟩ | ⟨middle, -, hsame⟩
    · have hlength := congrArg List.length hkept
      rw [List.length_append, List.length_take] at hlength
      have hnil : middle = [] := List.eq_nil_of_length_eq_zero (by omega)
      subst hnil
      rw [List.nil_append] at hsame
      exact hsame ▸ hn
    · rw [hsame]
      exact List.mem_append_right _ hn
  have hpiece := Course.mem_of_mem_names hnames
  exact id.backslash_not_mem ((Text.of_mem_splitOn hpiece).2 _ hback)

/-- **A file is found by its id** if no name below the directory has a backslash. -/
theorem finds_of_no_backslash (htree : v.disk.IsTree) (hv : ∀ n ∈ v.directory, Path.IsName n)
    (hfile : (v.directory ++ below, .file bytes) ∈ v.disk.entries) (hne : below ≠ [])
    (hfits : Text.byteLength (Path.ofNames (v.directory ++ below)) ≤ Disk.pathLimit)
    (hback : ∀ n ∈ below, '\\' ∉ n) :
    v.Finds (.ofPath (Text.join ['/'] below)) (v.directory ++ below) bytes := by
  have hbelow : ∀ n ∈ below, Path.IsName n := fun n hn =>
    htree.wellNamed _ hfile n (List.mem_append_right _ hn)
  have hplain := Path.Plain.of_names hne fun n hn => ⟨hbelow n hn, hback n hn⟩
  have hsplit : (Text.join ['/'] below).splitOn '/' = below :=
    List.splitOn_intercalate '/' (fun n hn => (hbelow n hn).no_slash) hne
  have hpath : v.locationOf (.ofPath (Text.join ['/'] below)) =
      Path.ofNames (v.directory ++ below) := by
    unfold locationOf root
    rw [hplain.path_ofPath, hsplit, Path.foldl_join_ofNames hv hbelow]
  have hleads : v.disk.locate (v.locationOf (.ofPath (Text.join ['/'] below))) =
      .ok (v.directory ++ below) := by
    rw [hpath]
    exact htree.locate_ofNames hfile (by simp [hne]) hfits
  have hentry := htree.entry?_of_mem hfile (by simp [hne])
  refine ⟨?_, hpath, hleads, ?_⟩
  · have hid : (DocumentId.ofPath (Text.join ['/'] below)).path ≠ [] := by
      rw [hplain.path_ofPath]
      intro hnil
      rw [hnil] at hsplit
      exact (hbelow [] (by simp [← hsplit])).ne_nil rfl
    unfold contains Disk.isFile
    simp [hid, hleads, hentry]
  · have hbytes : v.disk.readBytes (v.locationOf (.ofPath (Text.join ['/'] below))) =
        .ok bytes := by
      unfold Disk.readBytes
      simp only [hleads, Except.bind, hentry]
    unfold read Disk.readText
    rw [hbytes]
    rfl

/-- **A faithful listing**: every id finds the file that it is listed for, no two files share an
id, and what is offered for a name can be read. -/
structure ListsFaithfully (v : Vault) (within : Option Text) : Prop where
  found : ∀ names id, v.Lists within names id →
    ∃ bytes, v.disk.entry? names = some (.file bytes) ∧ v.Finds id names bytes
  distinct : ∀ names names' id, v.Lists within names id → v.Lists within names' id → names = names'
  offered : ∀ wanted id, Resolver.bestMatch? wanted (v.list within) = some id →
    ∃ names bytes, v.Lists within names id ∧ v.disk.entry? names = some (.file bytes) ∧
      v.read id = Disk.asText bytes

/-- Files with different names have different ids, and what is listed can be read, once every file
is found by its id. -/
theorem listsFaithfully_of_found (hdisk : v.disk.WellNamed)
    (hfound : ∀ names id, v.Lists within names id →
      ∃ bytes, v.disk.entry? names = some (.file bytes) ∧ v.Finds id names bytes) :
    v.ListsFaithfully within := by
  refine ⟨hfound, fun names names' id h h' => ?_, fun wanted id hbest => ?_⟩
  · obtain ⟨_, -, hfinds⟩ := hfound names id h
    obtain ⟨_, -, hfinds'⟩ := hfound names' id h'
    exact Except.ok.inj (hfinds.leads.symm.trans hfinds'.leads)
  · have hmem := List.mem_of_mem_filter (Resolver.mem_of_best? hbest)
    obtain ⟨names, hlists⟩ := (mem_list_iff_lists hdisk).mp hmem
    obtain ⟨bytes, hentry, hfinds⟩ := hfound names id hlists
    exact ⟨names, bytes, hlists, hentry, hfinds.reads⟩

/-- **Which listed files are found.** In a vault that is opened on a disk without links, whatever
directory is listed:

* the listing consists of the ids that it has for files;
* such a file stands below the vault's directory, and its id finds it exactly when no name below
  the directory has a backslash;
* so the listing is faithful exactly when it comes by no such name. -/
theorem listed_files_found_iff {disk : Disk} {path : Text} (hopen : open? disk path = .ok v)
    (htree : disk.IsTree) (within : Option Text) :
    (∀ id, id ∈ v.list within ↔ ∃ names, v.Lists within names id) ∧
    (∀ names id, v.Lists within names id → ∃ bytes below, names = v.directory ++ below ∧
      disk.entry? names = some (.file bytes) ∧
      (v.Finds id names bytes ↔ ∀ n ∈ below, '\\' ∉ n)) ∧
    (v.ListsFaithfully within ↔ ∀ below id, v.Lists within (v.directory ++ below) id →
      ∀ n ∈ below, '\\' ∉ n) := by
  obtain ⟨rfl, hv, -⟩ := of_open?_eq_ok hopen
  have hfiles : ∀ names id, v.Lists within names id → ∃ bytes below,
      names = v.directory ++ below ∧ v.disk.entry? names = some (.file bytes) ∧
      (v.Finds id names bytes ↔ ∀ n ∈ below, '\\' ∉ n) := by
    intro names id h
    obtain ⟨bytes, below, hfile, rfl, hne, rfl, hfits⟩ := h.exists_file htree.wellNamed
    exact ⟨bytes, below, rfl, htree.entry?_of_mem hfile (by simp [hne]),
      fun hfinds => backslash_not_mem_of_leads hv hfinds.leads,
      finds_of_no_backslash htree hv hfile hne hfits⟩
  refine ⟨fun id => mem_list_iff_lists htree.wellNamed, hfiles, fun h below id hlists => ?_,
    fun h => ?_⟩
  · obtain ⟨_, -, hfinds⟩ := h.found _ id hlists
    exact backslash_not_mem_of_leads hv hfinds.leads
  · refine listsFaithfully_of_found htree.wellNamed fun names id hlists => ?_
    obtain ⟨bytes, below, rfl, hentry, hiff⟩ := hfiles names id hlists
    exact ⟨bytes, hentry, hiff.mpr (h below id hlists)⟩

/-- A vault with a dot and a blank at the ends of its names, in a directory with a backslash. -/
def plainDisk : Disk :=
  ⟨[(["r\\1", "notes", " a. ", "b.md"].map String.toList, .file (Text.encode "B".toList)),
    (["r\\1", "notes", " a. ", ".b.md"].map String.toList, .file (Text.encode "hidden".toList)),
    (["r\\1", "notes", "c.md"].map String.toList, .file (Text.encode "C".toList))]⟩

theorem listed_files_found_iff_plain :
    open? plainDisk "/r\\1/./notes".toList = .ok ⟨plainDisk, ["r\\1".toList, "notes".toList]⟩ ∧
      plainDisk.IsTree ∧
      (⟨plainDisk, ["r\\1".toList, "notes".toList]⟩ : Vault).list (some "/ a. /".toList) =
        [.ofPath " a. /b.md".toList] ∧
      (⟨plainDisk, ["r\\1".toList, "notes".toList]⟩ : Vault).ListsFaithfully
        (some "/ a. /".toList) := by
  have hopen : open? plainDisk "/r\\1/./notes".toList =
      .ok ⟨plainDisk, ["r\\1".toList, "notes".toList]⟩ := by rfl
  have htree : plainDisk.IsTree := by decide +kernel
  have hback : ∀ e ∈ plainDisk.entries, ∀ n ∈ e.1.drop 2, '\\' ∉ n := by decide +kernel
  refine ⟨hopen, htree, by decide +kernel, ?_⟩
  refine ((listed_files_found_iff hopen htree _).2.2).mpr fun below id hlists => ?_
  obtain ⟨_, _, hfile, -⟩ := hlists.exists_file htree.wellNamed
  exact hback _ hfile

/-- Two files with a backslash in their names, and one with the id of the first. -/
def slashDisk : Disk :=
  ⟨[(["v", "a\\b.md"].map String.toList, .file (Text.encode "x".toList)),
    (["v", "a", "b.md"].map String.toList, .file (Text.encode "y".toList)),
    (["v", "c\\d.md"].map String.toList, .file (Text.encode "z".toList))]⟩

/-- The vault. -/
def slashVault : Vault := ⟨slashDisk, ["v".toList]⟩

/-- **A listed file can be lost.** Two files are listed with one id, which reads as one of them. The
third has an id that there is no document of, but it is offered for the name `d`. -/
theorem listed_file_lost :
    open? slashDisk "/v".toList = .ok slashVault ∧ slashDisk.IsTree ∧
    slashVault.list none =
      [.ofPath "a/b.md".toList, .ofPath "a/b.md".toList, .ofPath "c/d.md".toList] ∧
    slashVault.read (.ofPath "a/b.md".toList) = .ok "y".toList ∧
    Resolver.bestMatch? "d".toList (slashVault.list none) = some (.ofPath "c/d.md".toList) ∧
    slashVault.contains (.ofPath "c/d.md".toList) = false ∧
    slashVault.read (.ofPath "c/d.md".toList) = .error .missing :=
  ⟨rfl, by decide +kernel, by decide +kernel, by decide +kernel, by decide +kernel,
    by decide +kernel, by decide +kernel⟩

end Vault

end NotePress
