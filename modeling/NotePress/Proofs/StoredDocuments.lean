import Mathlib.Data.List.Find
import NotePress.Proofs.FoldedReferences
import NotePress.Proofs.ListedFiles
import NotePress.Proofs.NameMatches
import NotePress.Proofs.SortedIds
import NotePress.Proofs.Trimming
import NotePress.Proofs.WrittenFiles

/-!
# Documents in memory and in a directory

The same documents can be kept in memory and as the files of a vault (`Vault.Stores`). Every
reference then means the same. Listings are made in two ways: in memory by the text that ids start
with, in a vault by the files that are found from where a path leads. Both are in order, so they are
the same when they have the same members.

That depends on how the directory is written (`AsksForDirectory`). Without blanks and slashes around
it, it should be empty or a plain path that names no document; then the listings are the same. Any
other text lists nothing in memory, and a vault follows it as a path: it knows `./notes` as `notes`
(`Vault.stored_alike`).
-/

namespace NotePress

/-! ### Spelled paths -/

namespace Path

variable {path : Text} {names below empties : List Text}

/-- **A path spells names**: it is their path, perhaps with a slash at its end. -/
def Spells (path : Text) (names : List Text) : Prop :=
  path = ofNames names ∨ names ≠ [] ∧ path = ofNames names ++ ['/']

/-- An empty segment puts a slash at the end, once. -/
theorem Spells.join_nil (h : Spells path names) (hnames : ∀ n ∈ names, IsName n) :
    Spells (join path []) names := by
  rcases h with rfl | ⟨hne, rfl⟩
  · by_cases hne : names = []
    · subst hne
      exact .inl rfl
    · refine .inr ⟨hne, ?_⟩
      have hopen : ¬(ofNames names = [] ∨ (ofNames names).getLast? = some '/') :=
        not_or.mpr ⟨List.cons_ne_nil _ _, getLast?_ofNames hnames hne⟩
      rw [join, isAbsolute_of_no_slash List.not_mem_nil, if_neg Bool.false_ne_true, if_neg hopen]
  · refine .inr ⟨hne, ?_⟩
    rw [join, isAbsolute_of_no_slash List.not_mem_nil, if_neg Bool.false_ne_true,
      if_pos (.inr List.getLast?_concat), List.append_nil]

theorem Spells.foldl_join_empties (h : Spells path names) (hnames : ∀ n ∈ names, IsName n)
    (hempties : ∀ e ∈ empties, e = []) : Spells (empties.foldl join path) names := by
  refine List.foldlRecOn (motive := (Spells · names)) empties join h fun front hfront e he => ?_
  rw [hempties e he]
  exact hfront.join_nil hnames

/-- Names that are joined onto a spelled path go behind its names. -/
theorem Spells.foldl_join (h : Spells path names) (hnames : ∀ n ∈ names, IsName n)
    (hne : below ≠ []) (hbelow : ∀ n ∈ below, IsName n) :
    below.foldl join path = ofNames (names ++ below) := by
  rcases h with rfl | ⟨habove, rfl⟩
  · exact foldl_join_ofNames hnames hbelow
  · obtain ⟨n, rest, rfl⟩ := List.exists_cons_of_ne_nil hne
    have hn := hbelow n (List.mem_cons_self ..)
    have hjoin : join (ofNames names ++ ['/']) n = join (ofNames names) n := by
      rw [join_ofNames hnames hn, ofNames_append habove (by simp), ofNames_singleton, join,
        isAbsolute_of_no_slash hn.no_slash, if_neg Bool.false_ne_true,
        if_pos (.inr List.getLast?_concat), List.append_assoc]
      rfl
    rw [List.foldl_cons, hjoin, ← List.foldl_cons]
    exact foldl_join_ofNames hnames hbelow

theorem Spells.isPrefix (h : Spells path names) (hne : below ≠ []) :
    path <+: ofNames (names ++ below) := by
  rcases h with rfl | ⟨habove, rfl⟩
  · by_cases habove : names = []
    · subst habove
      exact List.prefix_append ['/'] _
    · rw [ofNames_append habove hne]
      exact List.prefix_append ..
  · rw [ofNames_append habove hne]
    exact (List.prefix_append_right_inj _).mpr (List.prefix_append ['/'] _)

theorem Spells.folded (h : Spells path names) (hnames : ∀ n ∈ names, IsName n) :
    Path.folded path = names := by
  have hself := folded_ofNames hnames
  rcases h with rfl | ⟨-, rfl⟩
  · exact hself
  · unfold Path.folded at hself ⊢
    rw [List.splitOn_append_cons_self, List.foldl_append, hself]
    exact follow_nil names

end Path

/-! ### Files of a tree -/

namespace Disk

variable {d : Disk} {names below : List Text} {e : Entry}

/-- A spelled path leads to a directory that something stands below. -/
theorem IsTree.locate_spelled (h : d.IsTree) {path : Text} (hpath : Path.Spells path names)
    (hmem : (names ++ below, e) ∈ d.entries) (hne : below ≠ [])
    (hfits : Text.byteLength (Path.ofNames (names ++ below)) ≤ pathLimit) :
    d.locate path = .ok names := by
  have hnames : ∀ n ∈ names, Path.IsName n := fun n hn =>
    h.wellNamed _ hmem n (List.mem_append_left _ hn)
  have hwhole : ([] ++ (names ++ below), e) ∈ d.entries := hmem
  have hwalk : d.walk [] names = .ok names := h.walk hwhole
  have hfault : pathFault? path = none := by
    obtain ⟨-, hnul, -⟩ := pathFault?_eq_none_iff.mp
      (pathFault?_of_locate (h.locate_ofNames hmem (by simp [hne]) hfits))
    obtain ⟨rest, hrest⟩ := hpath.isPrefix hne
    rw [← hrest] at hnul hfits
    rw [Text.byteLength_append] at hfits
    refine pathFault?_eq_none_iff.mpr ⟨?_, fun hmem => hnul (List.mem_append_left _ hmem), ?_⟩
    · rcases hpath with rfl | ⟨-, rfl⟩ <;> simp [Path.ofNames]
    · exact (Nat.le_add_right _ _).trans hfits
  have hdirectory : d.entry? names = some .directory := by
    obtain ⟨n, rest, rfl⟩ := List.exists_cons_of_ne_nil hne
    exact h.entry?_above hmem
  -- An empty piece at the end stays in the directory.
  have hstay : d.walk names [[]] = .ok names := by simp [Disk.walk, step, hdirectory, Except.bind]
  unfold locate
  rw [hfault]
  show d.walk [] (path.splitOn '/') = .ok names
  by_cases habove : names = []
  · subst habove
    obtain rfl : path = ['/'] := hpath.resolve_right fun hslash => hslash.1 rfl
    have hpieces : ['/'].splitOn '/' = [[], []] := by decide
    rw [hpieces, walk_root]
    exact hstay
  · have hpieces := Path.splitOn_ofNames hnames habove
    rcases hpath with rfl | ⟨-, rfl⟩
    · rw [hpieces, walk_root, hwalk]
    · rw [List.splitOn_append_cons_self, hpieces, List.cons_append, walk_root, walk_append hwalk]
      exact hstay

theorem mem_entries_of_entry? {bytes : List UInt8} (h : d.entry? names = some (.file bytes)) :
    (names, .file bytes) ∈ d.entries := by
  cases names with
  | nil => cases h
  | cons first rest =>
    rw [entry?_cons] at h
    cases hlookup : d.entries.lookup (first :: rest) with
    | some found =>
      rw [hlookup] at h
      cases h
      obtain ⟨front, back, hsplit, -⟩ := List.lookup_eq_some_iff.mp hlookup
      rw [hsplit]
      exact List.mem_append_right _ (List.mem_cons_self ..)
    | none =>
      rw [hlookup, Option.none_or] at h
      split at h <;> cases h

theorem IsTree.nodup_filesBelow (h : d.IsTree) (names : List Text) :
    (d.filesBelow names).Nodup := by
  refine List.pairwise_filterMap.mpr ((List.pairwise_map.mp h.once).imp ?_)
  rintro ⟨there, entry⟩ ⟨there', entry'⟩ hne below hbelow below' hbelow' rfl
  cases entry <;> cases entry' <;> try contradiction
  refine hne ?_
  rw [← List.append_eq_of_isPrefixOf?_eq_some hbelow,
    ← List.append_eq_of_isPrefixOf?_eq_some hbelow']

end Disk

/-! ### Stored documents -/

theorem DocumentId.eq_of_splitOn {a b : DocumentId}
    (h : a.path.splitOn '/' = b.path.splitOn '/') : a = b :=
  ext_path (Text.splitOn_inj.mp h)

namespace Vault

/-- **A vault stores documents** of these ids. The ids are plain paths of which no name is hidden
and none is too long, and the files below the vault's directory are those at their segments. -/
structure Stores (v : Vault) (ids : List DocumentId) : Prop where
  plain : ∀ id ∈ ids, Path.Plain id.path
  shown : ∀ id ∈ ids, ∀ s ∈ id.path.splitOn '/', opensWithDot s = false
  fits : ∀ id ∈ ids, Text.byteLength (v.locationOf id) ≤ Disk.pathLimit
  stored : ∀ id ∈ ids, ∃ e ∈ v.disk.entries,
    e.1 = v.directory ++ id.path.splitOn '/' ∧ e.2 ≠ .directory
  only : ∀ e ∈ v.disk.entries, e.2 ≠ .directory → v.directory <+: e.1 →
    ∃ id ∈ ids, e.1 = v.directory ++ id.path.splitOn '/'

instance (v : Vault) (ids : List DocumentId) : Decidable (v.Stores ids) :=
  decidable_of_iff ((∀ id ∈ ids, Path.Plain id.path) ∧
      (∀ id ∈ ids, ∀ s ∈ id.path.splitOn '/', opensWithDot s = false) ∧
      (∀ id ∈ ids, Text.byteLength (v.locationOf id) ≤ Disk.pathLimit) ∧
      (∀ id ∈ ids, ∃ e ∈ v.disk.entries,
        e.1 = v.directory ++ id.path.splitOn '/' ∧ e.2 ≠ .directory) ∧
      ∀ e ∈ v.disk.entries, e.2 ≠ .directory → v.directory <+: e.1 →
        ∃ id ∈ ids, e.1 = v.directory ++ id.path.splitOn '/')
    ⟨fun ⟨hplain, hshown, hfits, hstored, honly⟩ => ⟨hplain, hshown, hfits, hstored, honly⟩,
      fun h => ⟨h.plain, h.shown, h.fits, h.stored, h.only⟩⟩

variable {v : Vault} {ids : List DocumentId} {id : DocumentId} {within : Option Text}
  {names below : List Text} {bytes : List UInt8}

theorem Stores.exists_file (h : v.Stores ids) (hid : id ∈ ids) :
    ∃ bytes, (v.directory ++ id.path.splitOn '/', .file bytes) ∈ v.disk.entries := by
  obtain ⟨⟨there, entry⟩, hentry, rfl, hfile⟩ := h.stored id hid
  cases entry with
  | file bytes => exact ⟨bytes, hentry⟩
  | directory => exact absurd rfl hfile

theorem Stores.exists_id (h : v.Stores ids)
    (hfile : (v.directory ++ below, .file bytes) ∈ v.disk.entries) :
    ∃ id ∈ ids, below = id.path.splitOn '/' := by
  obtain ⟨id, hid, hsame⟩ := h.only _ hfile (by simp) (List.prefix_append ..)
  exact ⟨id, hid, List.append_cancel_left hsame⟩

theorem Stores.locationOf_eq (h : v.Stores ids) (hv : ∀ n ∈ v.directory, Path.IsName n)
    (hid : id ∈ ids) : v.locationOf id = Path.ofNames (v.directory ++ id.path.splitOn '/') :=
  Path.foldl_join_ofNames hv (h.plain id hid).names

theorem Stores.locate (h : v.Stores ids) (htree : v.disk.IsTree)
    (hv : ∀ n ∈ v.directory, Path.IsName n) (hid : id ∈ ids) :
    v.disk.locate (v.locationOf id) = .ok (v.directory ++ id.path.splitOn '/') := by
  obtain ⟨bytes, hfile⟩ := h.exists_file hid
  have hfits := h.fits id hid
  rw [h.locationOf_eq hv hid] at hfits ⊢
  exact htree.locate_ofNames hfile (by simp [List.splitOn_ne_nil]) hfits

/-- A listing has the ids of stored documents, each for its file. -/
theorem Stores.of_lists (h : v.Stores ids) (htree : v.disk.IsTree)
    (hlists : v.Lists within names id) :
    id ∈ ids ∧ names = v.directory ++ id.path.splitOn '/' := by
  obtain ⟨bytes, below, hfile, rfl, -, hid, -⟩ := hlists.exists_file htree.wellNamed
  obtain ⟨stored, hstored, rfl⟩ := h.exists_id hfile
  rw [Text.join_splitOn, DocumentId.ofPath_path] at hid
  subst hid
  exact ⟨hstored, rfl⟩

/-- **A plain id is in a vault** if a document is stored there. -/
theorem Stores.contains_iff (h : v.Stores ids) (htree : v.disk.IsTree)
    (hv : ∀ n ∈ v.directory, Path.IsName n) (hplain : Path.Plain id.path) :
    v.contains id = true ↔ id ∈ ids := by
  have hne := hplain.ne_nil
  have hfolded : Path.folded (v.locationOf id) = v.directory ++ id.path.splitOn '/' := by
    rw [folded_locationOf hv, DocumentId.course, Course.of_names hplain.names, Course.startingAt,
      Nat.sub_zero, List.take_length]
  have hcontains : v.contains id = true ↔ v.disk.isFile (v.locationOf id) = true := by
    simp [contains, hne]
  rw [hcontains, Disk.isFile_iff, hfolded]
  constructor
  · rintro ⟨bytes, -, hentry⟩
    obtain ⟨stored, hstored, hsame⟩ := h.exists_id (Disk.mem_entries_of_entry? hentry)
    exact DocumentId.eq_of_splitOn hsame ▸ hstored
  · intro hid
    obtain ⟨bytes, hfile⟩ := h.exists_file hid
    exact ⟨bytes, h.locate htree hv hid,
      htree.entry?_of_mem hfile (by simp [List.splitOn_ne_nil])⟩

/-- **A listing is in order**: no file comes twice, and no two have one id. -/
theorem Stores.ordered_list (h : v.Stores ids) (htree : v.disk.IsTree) (within : Option Text) :
    DocumentId.Ordered (v.list within) := by
  have hapart : (v.listedPaths within).Pairwise fun path path' =>
      Path.folded path ≠ Path.folded path' := by
    unfold listedPaths
    simp only
    cases hlocate : v.disk.locate (v.listingStart within) with
    | error e => exact .nil
    | ok names =>
      refine List.pairwise_map.mpr (((htree.nodup_filesBelow names).filter _).imp_of_mem ?_)
      intro below below' hbelow hbelow' hne hsame
      rw [folded_listed htree.wellNamed hlocate (List.mem_of_mem_filter hbelow),
        folded_listed htree.wellNamed hlocate (List.mem_of_mem_filter hbelow')] at hsame
      exact hne (List.append_cancel_left hsame)
  have hfolded : ∀ path ∈ v.listedPaths within, ∀ id, v.idAt path = some id →
      Path.folded path = v.directory ++ id.path.splitOn '/' := by
    intro path hpath id hid
    obtain ⟨habsolute, -⟩ := exists_file_of_mem_listedPaths htree.wellNamed hpath
    exact (h.of_lists htree ⟨path, hpath, (idAt_eq_some_iff habsolute).mp hid⟩).2
  refine DocumentId.ordered_sort (List.pairwise_filterMap.mpr (hapart.imp_of_mem ?_))
  rintro path path' hpath hpath' hne id hid _ hid' rfl
  exact hne ((hfolded path hpath _ hid).trans (hfolded path' hpath' _ hid').symm)

end Vault

/-! ### The directory that a listing asks for -/

/-- The directory that is asked for, without blanks and slashes around it. -/
def askedFor (root : Option Text) : Text :=
  (root.map fun r => Text.dropTail (· = '/') (r.trim.dropWhile (· = '/'))).getD []

/-- Its names; none where all documents are asked for. -/
def askedNames (root : Option Text) : List Text :=
  if askedFor root = [] then [] else (askedFor root).splitOn '/'

/-- **A directory is asked for** among documents of these ids: all of them, or what is below a plain
path that names none. -/
def AsksForDirectory (ids : List DocumentId) (root : Option Text) : Prop :=
  askedFor root = [] ∨ Path.Plain (askedFor root) ∧ ∀ id ∈ ids, id.path ≠ askedFor root

instance (ids : List DocumentId) (root : Option Text) : Decidable (AsksForDirectory ids root) :=
  inferInstanceAs (Decidable (_ ∨ _ ∧ _))

variable {root : Option Text} {r t front back path : Text}

theorem MemoryVault.listingStart_eq (root : Option Text) :
    listingStart root = if askedFor root = [] then [] else askedFor root ++ ['/'] := by
  unfold listingStart askedFor
  cases root with
  | none => rfl
  | some r =>
    cases hasked : Text.dropTail (· = '/') (r.trim.dropWhile (· = '/')) with
    | nil => simp [hasked]
    | cons c cs => simp [hasked]

/-- Paths start with the text of a directory if their names go on behind its names. -/
theorem MemoryVault.isPrefix_listingStart_iff : listingStart root <+: path ↔
    ∃ below, below ≠ [] ∧ path.splitOn '/' = askedNames root ++ below := by
  rw [listingStart_eq, askedNames]
  by_cases hasked : askedFor root = []
  · rw [if_pos hasked, if_pos hasked]
    exact iff_of_true List.nil_prefix ⟨_, List.splitOn_ne_nil '/' path, rfl⟩
  · rw [if_neg hasked, if_neg hasked]
    constructor
    · rintro ⟨rest, rfl⟩
      refine ⟨rest.splitOn '/', List.splitOn_ne_nil '/' rest, ?_⟩
      rw [List.append_assoc, List.singleton_append, List.splitOn_append_cons_self]
    · rintro ⟨below, hne, hpieces⟩
      have hjoin := Text.join_append ['/'] (List.splitOn_ne_nil '/' (askedFor root)) hne
      rw [← hpieces, Text.join_splitOn, Text.join_splitOn] at hjoin
      exact ⟨_, hjoin.symm⟩

/-- Around what is asked for there were slashes. -/
theorem exists_askedFor (r : Text) : ∃ front back, r.trim = front ++ (askedFor (some r) ++ back) ∧
    (∀ c ∈ front, c = '/') ∧ ∀ c ∈ back, c = '/' := by
  obtain ⟨back, hsplit, hback, -⟩ := Text.dropTail_eq_iff.mp
    (rfl : Text.dropTail (· = '/') (r.trim.dropWhile (· = '/')) = askedFor (some r))
  have hsplit : r.trim.dropWhile (· = '/') = askedFor (some r) ++ back := hsplit
  refine ⟨r.trim.takeWhile (· = '/'), back, ?_, fun c hc => ?_, fun c hc => ?_⟩
  · rw [← hsplit]
    exact List.takeWhile_append_dropWhile.symm
  · simpa using List.mem_takeWhile_imp hc
  · exact of_decide_eq_true (hback c hc)

theorem dropRootMarks_slashes (hfront : ∀ c ∈ front, c = '/') (t : Text) :
    dropRootMarks (front ++ t) = dropRootMarks t := by
  induction front with
  | nil => rfl
  | cons c rest ih =>
    obtain ⟨rfl, hrest⟩ := List.forall_mem_cons.mp hfront
    rw [List.cons_append, dropRootMarks]
    exact ih hrest

/-- Slashes at the end of a text leave empty pieces. -/
theorem exists_empties (hback : ∀ c ∈ back, c = '/') (t : Text) :
    ∃ empties, (∀ e ∈ empties, e = []) ∧
      (t ++ back).splitOn '/' = t.splitOn '/' ++ empties := by
  induction back using List.reverseRecOn with
  | nil => exact ⟨[], by simp, by simp⟩
  | append_singleton back c ih =>
    obtain ⟨empties, hempties, hpieces⟩ := ih fun d hd => hback d (List.mem_append_left _ hd)
    obtain rfl := hback c (by simp)
    refine ⟨empties ++ [[]], ?_, ?_⟩
    · simpa [or_imp, forall_and] using hempties
    · rw [← List.append_assoc, List.splitOn_append_cons_self, hpieces, List.append_assoc]
      rfl

theorem names_askedNames (h : askedFor root = [] ∨ Path.Plain (askedFor root)) :
    ∀ n ∈ askedNames root, Path.IsName n := by
  unfold askedNames
  split
  · simp
  · rename_i hasked
    exact (h.resolve_left hasked).names

/-- As an id, a directory that is asked for has its names, and empty ones for slashes behind it. -/
theorem exists_splitOn_ofPath (h : askedFor (some r) = [] ∨ Path.Plain (askedFor (some r))) :
    ∃ empties, (∀ e ∈ empties, e = []) ∧
      (DocumentId.ofPath r.trim).path.splitOn '/' = askedNames (some r) ++ empties := by
  obtain ⟨front, back, htrim, hfront, hback⟩ := exists_askedFor r
  have hslashes : ∀ {u : Text}, (∀ c ∈ u, c = '/') → '\\' ∉ u := fun hu hmem =>
    absurd (hu _ hmem) (by decide)
  have hasked : '\\' ∉ askedFor (some r) := by
    rcases h with hnil | hplain
    · simp [hnil]
    · exact hplain.no_backslash
  have hwritten : '\\' ∉ r.trim := by
    rw [htrim]
    simp [hslashes hfront, hslashes hback, hasked]
  have hpath : (DocumentId.ofPath r.trim).path = dropRootMarks (askedFor (some r) ++ back) := by
    show dropRootMarks (forwardSlashes r.trim) = _
    rw [forwardSlashes_eq_self hwritten, htrim, dropRootMarks_slashes hfront]
  rw [hpath, askedNames]
  split
  · rename_i hnil
    have hback := dropRootMarks_slashes hback []
    rw [List.append_nil] at hback
    refine ⟨[[]], by simp, ?_⟩
    rw [hnil, List.nil_append, hback]
    rfl
  · rename_i hne
    have hplain := h.resolve_left hne
    obtain ⟨empties, hempties, hpieces⟩ := exists_empties hback (askedFor (some r))
    refine ⟨empties, hempties, ?_⟩
    rw [dropRootMarks_eq_self, hpieces]
    intro s hs
    rw [hpieces, List.head?_append_of_ne_nil _ (List.splitOn_ne_nil _ _)] at hs
    exact hplain.names s (List.mem_of_head? hs)

namespace Vault

variable {v : Vault} {ids : List DocumentId} {id : DocumentId}

/-- A vault lists a directory that is asked for from its names below the vault's. -/
theorem spells_listingStart (hv : ∀ n ∈ v.directory, Path.IsName n)
    (h : askedFor root = [] ∨ Path.Plain (askedFor root)) :
    Path.Spells (v.listingStart root) (v.directory ++ askedNames root) := by
  have hall : askedFor root = [] → Path.Spells v.root (v.directory ++ askedNames root) := by
    intro hasked
    rw [askedNames, if_pos hasked, List.append_nil]
    exact .inl rfl
  cases root with
  | none => exact hall rfl
  | some r =>
    unfold listingStart
    rw [Option.bind_some, Text.unlessBlank?_eq]
    by_cases htrim : r.trim = []
    · rw [if_pos htrim]
      exact hall (by rw [askedFor, Option.map_some, htrim]; rfl)
    · rw [if_neg htrim]
      obtain ⟨empties, hempties, hpieces⟩ := exists_splitOn_ofPath h
      have hasked := names_askedNames h
      have hnames : ∀ n ∈ v.directory ++ askedNames (some r), Path.IsName n :=
        List.forall_mem_append.mpr ⟨hv, hasked⟩
      show Path.Spells (v.locationOf (.ofPath r.trim)) _
      unfold locationOf root
      rw [hpieces, List.foldl_append, Path.foldl_join_ofNames hv hasked]
      exact Path.Spells.foldl_join_empties (.inl rfl) hnames hempties

/-- **A directory that is asked for lists the documents below it.** -/
theorem Stores.mem_list_iff (h : v.Stores ids) (htree : v.disk.IsTree)
    (hv : ∀ n ∈ v.directory, Path.IsName n) (hroot : AsksForDirectory ids root) :
    id ∈ v.list root ↔ id ∈ ids ∧ MemoryVault.listingStart root <+: id.path := by
  have hasked : askedFor root = [] ∨ Path.Plain (askedFor root) := hroot.imp_right And.left
  have hspells := spells_listingStart hv hasked
  have hnames : ∀ n ∈ v.directory ++ askedNames root, Path.IsName n :=
    List.forall_mem_append.mpr ⟨hv, names_askedNames hasked⟩
  rw [MemoryVault.isPrefix_listingStart_iff, Vault.mem_list_iff]
  constructor
  · rintro ⟨path, hpath, hid⟩
    obtain ⟨habsolute, -⟩ := exists_file_of_mem_listedPaths htree.wellNamed hpath
    obtain ⟨hmem, hfolded⟩ :=
      h.of_lists htree ⟨path, hpath, (idAt_eq_some_iff habsolute).mp hid⟩
    obtain ⟨names, below, hlocate, hbelow, -, rfl⟩ := mem_listedPaths_iff.mp hpath
    rw [folded_listed htree.wellNamed hlocate hbelow, Disk.locate_eq_ok hlocate,
      hspells.folded hnames, List.append_assoc] at hfolded
    have hpieces := (List.append_cancel_left hfolded).symm
    refine ⟨hmem, below, ?_, hpieces⟩
    -- Without names below, the id would be what is asked for.
    rintro rfl
    rw [List.append_nil, askedNames] at hpieces
    split at hpieces
    · exact List.splitOn_ne_nil _ _ hpieces
    · rename_i hne
      exact (hroot.resolve_left hne).2 id hmem (Text.splitOn_inj.mp hpieces)
  · rintro ⟨hmem, below, hne, hpieces⟩
    obtain ⟨bytes, hfile⟩ := h.exists_file hmem
    have hfits := h.fits id hmem
    have hlocation := h.locationOf_eq hv hmem
    have hleads := h.locate htree hv hmem
    rw [hlocation] at hfits hleads
    rw [hpieces, ← List.append_assoc] at hfile hfits hleads
    have hbelow : ∀ n ∈ below, Path.IsName n := fun n hn =>
      (h.plain id hmem).names n (hpieces ▸ List.mem_append_right _ hn)
    have hjoin := hspells.foldl_join hnames hne hbelow
    refine ⟨below.foldl Path.join (v.listingStart root), mem_listedPaths_iff.mpr
      ⟨_, below, htree.locate_spelled hspells hfile hne hfits,
        Disk.mem_filesBelow.mpr ⟨bytes, hfile⟩, ?_, rfl⟩, ?_⟩
    · refine List.any_eq_false.mpr fun n hn => ?_
      rw [h.shown id hmem n (hpieces ▸ List.mem_append_right _ hn)]
      exact Bool.false_ne_true
    · rw [hjoin, idAt_eq_some_iff rfl, ← Disk.locate_eq_ok hleads]
      refine ⟨hleads, ?_⟩
      have hinside : v.directory.isPrefixOf? (v.directory ++ askedNames root ++ below) =
          some (id.path.splitOn '/') := by
        rw [List.append_assoc, ← hpieces]
        exact List.isPrefixOf?_eq_some_iff_append_eq.mpr rfl
      obtain ⟨n, rest, hsegments⟩ :=
        List.exists_cons_of_ne_nil (List.splitOn_ne_nil '/' id.path)
      have hwhole : Text.join ['/'] (n :: rest) = id.path :=
        hsegments ▸ Text.join_splitOn '/' id.path
      unfold idOfNames
      rw [hinside, hsegments]
      show some (DocumentId.ofPath (Text.join ['/'] (n :: rest))) = some id
      rw [hwhole, DocumentId.ofPath_path]

/-- What asks for no directory is in front of no id. -/
theorem Stores.not_isPrefix (h : v.Stores ids) (htree : v.disk.IsTree)
    (hroot : ¬AsksForDirectory ids root) (hmem : id ∈ ids) :
    ¬MemoryVault.listingStart root <+: id.path := by
  intro hstart
  obtain ⟨hne, hdocument⟩ := not_or.mp hroot
  have hstart' := hstart
  rw [MemoryVault.listingStart_eq, if_neg hne] at hstart'
  obtain ⟨below, hbelow, hpieces⟩ := MemoryVault.isPrefix_listingStart_iff.mp hstart
  rw [askedNames, if_neg hne] at hpieces
  have hplain : Path.Plain (askedFor root) := by
    have hid := h.plain id hmem
    refine ⟨fun hback => hid.no_backslash ?_, fun s hs => hid.names s ?_⟩
    · exact hstart'.subset (List.mem_append_left _ hback)
    · exact hpieces ▸ List.mem_append_left _ hs
  -- So it would name a document that another one is below.
  refine hdocument ⟨hplain, fun above habove hasked => ?_⟩
  obtain ⟨bytes, hfile⟩ := h.exists_file habove
  obtain ⟨bytes', hfile'⟩ := h.exists_file hmem
  rw [hasked] at hfile
  rw [hpieces, ← List.append_assoc] at hfile'
  have hsame := htree.leaves _ hfile (by simp) _ hfile' (List.prefix_append ..)
  exact hbelow (List.append_right_eq_self.mp hsame)

/-! ### Listings in memory and in a vault -/

section

variable {directory : Text}

theorem isTrimmed_dotted (h : directory.IsTrimmed) :
    Text.IsTrimmed ("./".toList ++ directory) := by
  have hslash : Text.IsTrimmed ('/' :: directory) := h.cons (by decide)
  exact hslash.cons (by decide : isBlank '.' = false)

/-- A dot in front of a directory stays in what is asked for. -/
theorem askedFor_dotted (hplain : Path.Plain directory) (h : directory.IsTrimmed) :
    askedFor (some ("./".toList ++ directory)) = "./".toList ++ directory := by
  have hlast : ∀ c ∈ directory.getLast?, decide (c = '/') = false := by
    intro c hc
    obtain ⟨front, rfl⟩ := List.getLast?_eq_some_iff.mp hc
    refine decide_eq_false ?_
    rintro rfl
    have hnames := hplain.names
    rw [List.splitOn_append_cons_self] at hnames
    exact (hnames [] (by simp)).ne_nil rfl
  rw [askedFor, Option.map_some, (isTrimmed_dotted h).trim]
  show Text.dropTail (· = '/') ('.' :: '/' :: directory) = _
  refine Text.dropTail_eq_self fun c hc => ?_
  rw [List.getLast?_cons_cons, List.getLast?_cons_of_ne_nil h.ne_nil] at hc
  exact hlast c hc

/-- A vault goes by the id of a directory, and drops the dot. -/
theorem list_dotted (h : directory.IsTrimmed) :
    v.list (some ("./".toList ++ directory)) = v.list (some directory) := by
  have hid : DocumentId.ofPath ("./".toList ++ directory) = .ofPath directory := rfl
  have hstart : v.listingStart (some ("./".toList ++ directory)) =
      v.listingStart (some directory) := by
    unfold listingStart
    rw [Option.bind_some, Option.bind_some, h.unlessBlank?, (isTrimmed_dotted h).unlessBlank?]
    exact congrArg v.locationOf hid
  unfold list listedPaths
  rw [hstart]

end

/-- **Documents in memory and in a directory.** Let the same documents, of plain ids that nothing
hides, be kept in memory and as the files of a vault on a disk without links. Every reference means
the same in both, in every note. Listings are in order, and

* the two are the same where a directory is asked for that is no document; and any other text lists
  nothing in memory, so that they are the same only if the vault lists nothing as well;
* so a directory with `./` in front lists nothing in memory, and in the vault what it lists
  without. -/
theorem stored_alike {disk : Disk} {path : Text} (hopen : open? disk path = .ok v)
    (htree : disk.IsTree) (documents : List (DocumentId × Text)) (failing : List DocumentId)
    (hstored : v.Stores (documents.map (·.1))) :
    let g := MemoryVault.ofDocuments documents failing
    (∀ reference base,
      g.toCollection.resolve reference base = v.toCollection.resolve reference base) ∧
    (∀ root, DocumentId.Ordered (g.list root) ∧ DocumentId.Ordered (v.list root) ∧
      (g.list root = v.list root ↔
        AsksForDirectory (documents.map (·.1)) root ∨ v.list root = []) ∧
      (¬AsksForDirectory (documents.map (·.1)) root → g.list root = [])) ∧
    ∀ directory, Path.Plain directory → directory.trim = directory →
      g.list (some ("./".toList ++ directory)) = [] ∧
      v.list (some ("./".toList ++ directory)) = v.list (some directory) := by
  intro g
  obtain ⟨rfl, hv, -⟩ := of_open?_eq_ok hopen
  have hcontains : ∀ id, g.contains id = true ↔ id ∈ documents.map (·.1) := fun id =>
    MemoryVault.contains_iff.trans MemoryVault.mem_ids_ofDocuments
  have hmem : ∀ root id, id ∈ g.list root ↔
      id ∈ documents.map (·.1) ∧ MemoryVault.listingStart root <+: id.path := by
    intro root id
    rw [MemoryVault.mem_list_iff, MemoryVault.Lists, hcontains]
  have hordered : ∀ root, DocumentId.Ordered (g.list root) := fun root =>
    (MemoryVault.ordered_ids documents failing).filter _
  have hnone : ∀ root, ¬AsksForDirectory (documents.map (·.1)) root → g.list root = [] := by
    intro root hroot
    refine List.eq_nil_iff_forall_not_mem.mpr fun id hid => ?_
    obtain ⟨hid, hstart⟩ := (hmem root id).mp hid
    exact hstored.not_isPrefix htree hroot hid hstart
  refine ⟨fun reference base => ?_, fun root => ?_, fun directory hplain htrim => ?_⟩
  · refine List.find?_congr fun id hid => ?_
    obtain ⟨plain, hplain, rfl⟩ := exists_plain_of_mem_idsFor hid
    rw [Bool.eq_iff_iff, hcontains]
    refine (hstored.contains_iff htree hv ?_).symm
    rw [hplain.path_ofPath]
    exact hplain
  · have hvault := hstored.ordered_list htree root
    refine ⟨hordered root, hvault, ⟨fun hsame => ?_, fun h => ?_⟩, hnone root⟩
    · by_cases hroot : AsksForDirectory (documents.map (·.1)) root
      · exact .inl hroot
      · exact .inr (hsame ▸ hnone root hroot)
    · by_cases hroot : AsksForDirectory (documents.map (·.1)) root
      · refine (hordered root).eq_of_mem_iff hvault fun id => ?_
        rw [hmem, hstored.mem_list_iff htree hv hroot]
      · rw [hnone root hroot, h.resolve_left hroot]
  · have hdirectory : directory.IsTrimmed := ⟨hplain.ne_nil, htrim⟩
    refine ⟨hnone _ ?_, list_dotted hdirectory⟩
    unfold AsksForDirectory
    rw [askedFor_dotted hplain hdirectory]
    rintro (hnil | ⟨hdotted, -⟩)
    · cases hnil
    · have hdot : '/' ∉ ['.'] := by decide
      have hpieces : ("./".toList ++ directory).splitOn '/' = ['.'] :: directory.splitOn '/' :=
        List.splitOn_append_cons_self_of_not_mem hdot directory
      exact (hdotted.names ['.'] (hpieces ▸ List.mem_cons_self ..)).ne_dot rfl

/-- Notes in two directories. -/
def sharedNotes : List (DocumentId × Text) :=
  ["z.md", "notes/b.md", "notes/a/c.md"].map fun p => (.ofPath p.toList, "x".toList)

/-- A disk with the same notes below `/v`, and one elsewhere. -/
def sharedDisk : Disk :=
  ⟨[(["v", "notes", "b.md"].map String.toList, .file (Text.encode "x".toList)),
    (["v", "notes", "a", "c.md"].map String.toList, .file (Text.encode "x".toList)),
    (["v", "z.md"].map String.toList, .file (Text.encode "x".toList)),
    (["w", "z.md"].map String.toList, .file (Text.encode "x".toList))]⟩

theorem stored_alike_shared :
    open? sharedDisk "/w/../v".toList = .ok ⟨sharedDisk, ["v".toList]⟩ ∧ sharedDisk.IsTree ∧
      (⟨sharedDisk, ["v".toList]⟩ : Vault).Stores (sharedNotes.map (·.1)) ∧
      AsksForDirectory (sharedNotes.map (·.1)) (some " /notes/".toList) ∧
      (MemoryVault.ofDocuments sharedNotes []).list (some " /notes/".toList) =
        (⟨sharedDisk, ["v".toList]⟩ : Vault).list (some " /notes/".toList) ∧
      (⟨sharedDisk, ["v".toList]⟩ : Vault).list (some " /notes/".toList) =
        [.ofPath "notes/a/c.md".toList, .ofPath "notes/b.md".toList] := by
  have hopen : open? sharedDisk "/w/../v".toList = .ok ⟨sharedDisk, ["v".toList]⟩ := by rfl
  have htree : sharedDisk.IsTree := by decide +kernel
  have hstored : (⟨sharedDisk, ["v".toList]⟩ : Vault).Stores (sharedNotes.map (·.1)) := by
    decide +kernel
  have hasks : AsksForDirectory (sharedNotes.map (·.1)) (some " /notes/".toList) := by
    decide +kernel
  obtain ⟨-, hlists, -⟩ := stored_alike hopen htree sharedNotes [] hstored
  exact ⟨hopen, htree, hstored, hasks, (hlists _).2.2.1.mpr (.inl hasks), by decide +kernel⟩

/-- One note in a directory. -/
def singleNote : List (DocumentId × Text) := [(.ofPath "notes/a.md".toList, "x".toList)]

/-- A vault with the same note. -/
def singleVault : Vault :=
  ⟨⟨[(["v", "notes", "a.md"].map String.toList, .file (Text.encode "x".toList))]⟩, ["v".toList]⟩

/-- **A directory with a dot in front** has its note in the vault, and none in memory. -/
theorem dotted_directory_missed :
    open? singleVault.disk "/v".toList = .ok singleVault ∧ singleVault.disk.IsTree ∧
      singleVault.Stores (singleNote.map (·.1)) ∧
      (MemoryVault.ofDocuments singleNote []).list (some "./notes".toList) = [] ∧
      singleVault.list (some "./notes".toList) = [.ofPath "notes/a.md".toList] :=
  ⟨rfl, by decide +kernel, by decide +kernel, by decide +kernel, by decide +kernel⟩

end Vault

end NotePress
