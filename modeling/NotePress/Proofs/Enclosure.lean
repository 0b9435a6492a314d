import NotePress.Proofs.Cycle
import NotePress.Proofs.Footprint
import NotePress.Proofs.Occurrences
import NotePress.Proofs.Paths
import NotePress.Proofs.Remembering

/-!
# Documents outside a vault

A vault's own index folds `..` before it looks anything up, and finds documents below the vault's
directory only (`Vault.leadsBelow_of_resolve`). After it, a reference is taken as a path as it
stands, and nothing folds it: an id such as `../secret.md` leads out. So does the id of a file whose
name has a backslash, since ids are written with slashes.

`Vault.documents_enclosed_iff` says what this comes to. A document that a reference means lies below
the directory exactly when the course of its id leads there, and it does unless the reference was
taken as a path with `..` or matched the name of such a file. Expanding and lowering read no file
outside, as long as the documents that they ask for lie below.
-/

namespace NotePress

/-! ### Plain paths -/

/-- A mark that is dropped in front would be a piece that is no name. -/
theorem dropRootMarks_eq_self {t : Text} (h : ∀ s ∈ (t.splitOn '/').head?, Path.IsName s) :
    dropRootMarks t = t := by
  fun_cases dropRootMarks t with
  | case1 rest =>
    have hdot : '/' ∉ ['.'] := by decide
    have hpieces : ('.' :: '/' :: rest).splitOn '/' = ['.'] :: rest.splitOn '/' :=
      List.splitOn_append_cons_self_of_not_mem hdot rest
    rw [hpieces] at h
    exact absurd rfl (h ['.'] rfl).ne_dot
  | case2 rest =>
    have hpieces : ('/' :: rest).splitOn '/' = [] :: rest.splitOn '/' :=
      List.splitOn_append_cons_self_of_not_mem List.not_mem_nil rest
    rw [hpieces] at h
    exact absurd rfl (h [] rfl).ne_nil
  | case3 => rfl

/-- A path of names that may stand in an id as they are. -/
structure Path.Plain (path : Text) : Prop where
  no_backslash : '\\' ∉ path
  names : ∀ s ∈ path.splitOn '/', Path.IsName s

instance (path : Text) : Decidable (Path.Plain path) :=
  decidable_of_iff ('\\' ∉ path ∧ ∀ s ∈ path.splitOn '/', Path.IsName s)
    ⟨fun ⟨hback, hnames⟩ => ⟨hback, hnames⟩, fun h => ⟨h.no_backslash, h.names⟩⟩

namespace Path.Plain

variable {path : Text}

theorem of_names {names : List Text} (hne : names ≠ [])
    (h : ∀ n ∈ names, Path.IsName n ∧ '\\' ∉ n) : Plain (Text.join ['/'] names) := by
  have hpieces : (Text.join ['/'] names).splitOn '/' = names :=
    List.splitOn_intercalate '/' (fun n hn => (h n hn).1.no_slash) hne
  refine ⟨fun hback => ?_, fun s hs => (h s (hpieces ▸ hs)).1⟩
  obtain ⟨piece, hpiece, hmem⟩ := Text.exists_mem_splitOn (by decide : '\\' ≠ '/') hback
  exact (h piece (hpieces ▸ hpiece)).2 hmem

theorem ne_nil (h : Plain path) : path ≠ [] := by
  rintro rfl
  exact (h.names [] (by simp)).ne_nil rfl

/-- The ending of notes leaves a path plain. -/
theorem append_noteEnding (h : Plain path) : Plain (path ++ noteEnding) := by
  refine ⟨by simpa [noteEnding] using h.no_backslash, fun s hs => ?_⟩
  rcases Text.mem_splitOn_append (by decide) hs with hs | ⟨last, hlast, rfl⟩
  · exact h.names s hs
  · -- With the ending a name is too long for `.` and `..`.
    have hlonger : 3 ≤ (last ++ noteEnding).length := by simp [noteEnding]
    refine ⟨?_, ?_, ?_, ?_⟩
    · intro e; simp [e] at hlonger
    · intro e; simp [e] at hlonger
    · intro e; simp [e] at hlonger
    · simpa [noteEnding] using (h.names last hlast).no_slash

/-- A plain path is an id as it stands. -/
theorem path_ofPath (h : Plain path) : (DocumentId.ofPath path).path = path := by
  show dropRootMarks (forwardSlashes path) = path
  rw [forwardSlashes_eq_self h.no_backslash]
  exact dropRootMarks_eq_self fun s hs => h.names s (List.mem_of_head? hs)

/-- **A plain path leads below**, wherever it starts. -/
theorem leadsBelow (h : Plain path) (directory : List Text) :
    (DocumentId.ofPath path).course.LeadsBelow directory := by
  have hcourse : (DocumentId.ofPath path).course = ⟨0, path.splitOn '/'⟩ := by
    rw [DocumentId.course, h.path_ofPath, Course.of_names h.names]
  rw [hcourse]
  exact Course.leadsBelow_of_no_ups rfl (List.splitOn_ne_nil _ _) directory

end Path.Plain

/-! ### The index -/

/-- What folding leaves are names. -/
theorem of_mem_foldSegments {outer segments out : List Text}
    (h : foldSegments outer segments = some out) :
    ∀ n ∈ out, n ∈ outer ∨ n ∈ segments ∧ n ≠ [] ∧ n ≠ ['.'] ∧ n ≠ ['.', '.'] := by
  induction segments generalizing outer with
  | nil =>
    cases h
    exact fun n hn => .inl hn
  | cons s rest ih =>
    obtain ⟨next, hnext, h⟩ := Option.bind_eq_some_iff.mp h
    intro n hn
    have hstep : n ∈ next → n ∈ outer ∨ n = s ∧ n ≠ [] ∧ n ≠ ['.'] ∧ n ≠ ['.', '.'] := by
      intro hn
      unfold foldSegment at hnext
      split at hnext
      · cases hnext
        exact .inl hn
      · rename_i hstay
        obtain ⟨hnil, hdot⟩ := not_or.mp hstay
        split at hnext
        · split at hnext <;> cases hnext
          exact .inl (List.mem_cons_of_mem _ hn)
        · rename_i hup
          cases hnext
          rcases List.mem_cons.mp hn with rfl | hn
          · exact .inr ⟨rfl, hnil, hdot, hup⟩
          · exact .inl hn
    rcases ih h n hn with hn | ⟨hn, hname⟩
    · rcases hstep hn with hn | ⟨rfl, hname⟩
      · exact .inl hn
      · exact .inr ⟨List.mem_cons_self .., hname⟩
    · exact .inr ⟨List.mem_cons_of_mem _ hn, hname⟩

/-- A reference is joined to a plain path, or to none. -/
theorem plain_of_joinReference? {directory reference path : Text} (hdirectory : '\\' ∉ directory)
    (hreference : '\\' ∉ reference) (h : joinReference? directory reference = some path) :
    Path.Plain path := by
  unfold joinReference? at h
  simp only at h
  split at h
  · rename_i s outer hfold
    cases h
    refine Path.Plain.of_names (by simp) fun n hn => ?_
    rcases of_mem_foldSegments hfold n (List.mem_reverse.mp hn) with hn | ⟨hn, hnil, hdot, hup⟩
    · cases hn
    · have hpiece : '/' ∉ n ∧ '\\' ∉ n := by
        rcases List.mem_append.mp hn with hn | hn
        · have hof := Text.of_mem_splitOn hn
          refine ⟨hof.1, fun hback => ?_⟩
          have hleading := hof.2 _ hback
          split at hleading
          · cases hleading
          · exact hdirectory hleading
        · have hof := Text.of_mem_splitOn hn
          exact ⟨hof.1, fun hback => hreference (hof.2 _ hback)⟩
      exact ⟨⟨hnil, hdot, hup, hpiece.1⟩, hpiece.2⟩
  · cases h

theorem DocumentId.backslash_not_mem (id : DocumentId) : '\\' ∉ id.path := by
  rw [← id.normal]
  exact fun h => backslash_not_mem_forwardSlashes id.path (mem_of_mem_dropRootMarks h)

/-- Every id that a reference may mean by the index is a plain path. -/
theorem exists_plain_of_mem_idsFor {reference : Text} {base id : DocumentId}
    (h : id ∈ idsFor reference base) : ∃ path, Path.Plain path ∧ id = .ofPath path := by
  unfold idsFor at h
  simp only at h
  split at h
  · cases h
  · obtain ⟨path, hpath, hid⟩ := List.mem_flatMap.mp (List.mem_eraseDups.mp h)
    obtain ⟨directory, hdirectory, hjoin⟩ := List.mem_filterMap.mp hpath
    have hback : '\\' ∉ directory := by
      unfold linkDirectories at hdirectory
      split at hdirectory
      · rw [List.mem_singleton.mp hdirectory]
        simp
      · simp only [List.mem_cons, List.not_mem_nil, or_false] at hdirectory
        rcases hdirectory with rfl | rfl
        · exact fun h => base.backslash_not_mem (Text.beforeLast_subset h)
        · simp
    have hplain := plain_of_joinReference? hback (backslash_not_mem_forwardSlashes _) hjoin
    simp only [List.mem_cons, List.not_mem_nil, or_false] at hid
    rcases hid with rfl | rfl
    · exact ⟨path, hplain, rfl⟩
    · exact ⟨_, hplain.append_noteEnding, rfl⟩

/-- **What the index finds lies below.** -/
theorem Vault.leadsBelow_of_resolve {v : Vault} {target : Text} {source id : DocumentId}
    (h : v.toCollection.resolve target source = some id) (directory : List Text) :
    id.course.LeadsBelow directory := by
  obtain ⟨path, hplain, rfl⟩ := exists_plain_of_mem_idsFor (List.mem_of_find?_eq_some h)
  exact hplain.leadsBelow directory

/-! ### Paths and names -/

theorem Resolver.mem_of_best? {ids : List DocumentId} {id : DocumentId} (h : best? ids = some id) :
    id ∈ ids := by
  induction ids with
  | nil => cases h
  | cons a rest ih =>
    unfold best? at h
    split at h
    · cases h
      exact List.mem_cons_self ..
    · rename_i b hbest
      split at h <;> cases h
      · exact List.mem_cons_of_mem _ (ih hbest)
      · exact List.mem_cons_self ..

/-- **The three ways to a document**: by the index, by its path, and by its name. -/
theorem Resolver.meaning_cases {r : Resolver} {reference : Reference} {source id : DocumentId}
    (h : r.meaning reference source = some id) :
    r.collection.resolve reference.target source = some id ∨
      r.collection.resolve reference.target source = none ∧
        (r.collection.contains id = true ∧ (id = .ofPath reference.target ∨
            id = .ofPath ((DocumentId.ofPath reference.target).path ++ noteEnding)) ∨
          id ∈ r.collection.list r.searchRoot) := by
  unfold meaning resolveExact? at h
  cases hindex : r.collection.resolve reference.target source with
  | some found =>
    rw [hindex] at h
    exact .inl h
  | none =>
    refine .inr ⟨rfl, ?_⟩
    rw [hindex] at h
    simp only at h
    split at h
    · rename_i found hexact
      cases h
      have hmem := List.mem_of_find?_eq_some hexact
      simp only [List.mem_cons, List.not_mem_nil, or_false] at hmem
      exact .inl ⟨List.find?_some hexact, hmem⟩
    · split at h
      · cases h
      · exact .inr (List.mem_of_mem_filter (mem_of_best? h))

namespace Vault

variable {v : Vault} {id : DocumentId}

/-- A document that is listed is a file of the disk. -/
theorem exists_file_of_mem_list (hdisk : v.disk.WellNamed) {within : Option Text}
    (h : id ∈ v.list within) :
    ∃ names bytes, (names, .file bytes) ∈ v.disk.entries ∧ v.idOfNames names = some id := by
  obtain ⟨path, hpath, hid⟩ := mem_list_iff.mp h
  obtain ⟨habsolute, bytes, hfile⟩ := exists_file_of_mem_listedPaths hdisk hpath
  exact ⟨_, bytes, hfile, ((idAt_eq_some_iff habsolute).mp hid).2⟩

/-- A file without a backslash in its names has an id that leads below. -/
theorem leadsBelow_of_idOfNames {names : List Text} (hnames : ∀ n ∈ names, Path.IsName n)
    (hback : ∀ n ∈ names, '\\' ∉ n) (h : v.idOfNames names = some id) (directory : List Text) :
    id.course.LeadsBelow directory := by
  unfold idOfNames at h
  split at h
  · rename_i n rest hinside
    cases h
    have hmem : ∀ m ∈ n :: rest, m ∈ names := by
      rw [← List.append_eq_of_isPrefixOf?_eq_some hinside]
      exact fun m hm => List.mem_append_right _ hm
    exact (Path.Plain.of_names (by simp) fun m hm =>
      ⟨hnames m (hmem m hm), hback m (hmem m hm)⟩).leadsBelow directory
  · cases h

/-- A document that is named without `..` and is a file leads below. -/
theorem leadsBelow_of_contains (hv : ∀ n ∈ v.directory, Path.IsName n)
    (hroot : v.disk.entry? v.directory = some .directory) (h : v.contains id = true)
    (hup : ['.', '.'] ∉ id.path.splitOn '/') (directory : List Text) :
    id.course.LeadsBelow directory := by
  have hups : id.course.ups = 0 := congrArg Course.ups (Course.of_eq_of_no_up hup)
  refine Course.leadsBelow_of_no_ups hups (fun hnames => ?_) directory
  -- A course without names leads to the directory itself, which is no file.
  have hhere : Path.folded (v.locationOf id) = v.directory := by
    rw [folded_locationOf hv, Course.startingAt, hnames, hups]
    simp
  unfold contains at h
  simp only [decide_eq_true_eq] at h
  obtain ⟨bytes, -, hfile⟩ := Disk.isFile_iff.mp h.2
  rw [hhere, hroot] at hfile
  cases hfile

/-- How a reference to `target` comes to a document that does not lie below the directory. -/
inductive NamedOutside (v : Vault) (target : Text) (id : DocumentId) : Prop where
  /-- The reference is taken as a path, which has `..` in it. -/
  | path (h : id = .ofPath target ∨ id = .ofPath ((DocumentId.ofPath target).path ++ noteEnding))
      (hup : ['.', '.'] ∈ id.path.splitOn '/')
  /-- The reference matches a file with a backslash in one of its names. -/
  | name {names : List Text} {bytes : List UInt8} (hfile : (names, .file bytes) ∈ v.disk.entries)
      (hid : v.idOfNames names = some id) {n : Text} (hn : n ∈ names) (hback : '\\' ∈ n)

/-- **A reference leads out by its path or by a name with a backslash**, and never by the index. -/
theorem namedOutside (hv : ∀ n ∈ v.directory, Path.IsName n)
    (hroot : v.disk.entry? v.directory = some .directory) (hdisk : v.disk.WellNamed)
    {searchRoot : Option Text} {reference : Reference} {source : DocumentId}
    (h : (⟨v.toCollection, searchRoot⟩ : Resolver).meaning reference source = some id)
    (hout : ¬id.course.LeadsBelow v.directory) :
    v.toCollection.resolve reference.target source = none ∧ v.NamedOutside reference.target id := by
  rcases Resolver.meaning_cases h with hindex | ⟨hindex, ⟨hcontains, hexact⟩ | hlist⟩
  · exact absurd (leadsBelow_of_resolve hindex _) hout
  · refine ⟨hindex, .path hexact ?_⟩
    by_contra hup
    exact hout (leadsBelow_of_contains hv hroot hcontains hup _)
  · refine ⟨hindex, ?_⟩
    obtain ⟨names, bytes, hfile, hid⟩ := exists_file_of_mem_list hdisk hlist
    by_contra hno
    refine hout (leadsBelow_of_idOfNames (hdisk _ hfile) (fun n hn hback => ?_) hid _)
    exact hno (.name hfile hid hn hback)

/-! ### Reading -/

/-- The documents whose courses lead below the directory. -/
def inside (v : Vault) : Set DocumentId := {id | id.course.LeadsBelow v.directory}

/-- **Documents inside and outside.** In a vault that is opened on a disk whose files have names,
through a coherent cache:

* a document that a reference means lies below the vault's directory exactly when the course of its
  id leads there; if not, the index did not find it, and the reference was taken as a path with `..`
  or matched a file with a backslash in its names;
* a document that is read is the file at its folded path;
* expanding and lowering a text are the same, with the cache they leave, whatever the documents
  outside read as, if all documents that they ask for lead below. -/
theorem documents_enclosed_iff {disk : Disk} {path : Text} {v : Vault}
    (hopen : open? disk path = .ok v) (hdisk : disk.WellNamed) (searchRoot : Option Text)
    (p : Profile) (listings : Bool) {c : Cache} (hc : c.Coherent v.toCollection) :
    let l : Lowering := ⟨⟨v.toCollection, searchRoot⟩, p, listings⟩
    (∀ reference source id, (l.resolver.resolve c reference source).1 = some id →
      (v.Encloses id ↔ id.course.LeadsBelow v.directory) ∧
      (¬v.Encloses id → v.toCollection.resolve reference.target source = none ∧
        v.NamedOutside reference.target id)) ∧
    (∀ id text, v.read id = .ok text → ∃ bytes,
      disk.entry? (Path.folded (v.locationOf id)) = some (.file bytes) ∧
        Text.decode? bytes = some text) ∧
    ∀ read, (∀ id, v.Encloses id → read id = v.read id) → ∀ t source,
      (l.resolver.ReadsIn c v.inside t source →
        (l.resolver.over (v.toCollection.readingAs read)).expand c t source =
          l.resolver.expand c t source) ∧
      (l.ReadsIn c v.inside t source →
        (l.over (v.toCollection.readingAs read)).lower c t source = l.lower c t source) := by
  intro l
  obtain ⟨rfl, hv, hroot⟩ := of_open?_eq_ok hopen
  have hencloses := fun id => encloses_iff hv id
  refine ⟨fun reference source id hresolve => ⟨hencloses id, fun hout => ?_⟩,
    fun id text hread => Disk.readText_eq_ok hread, fun read hread t source => ?_⟩
  · have hmeans : l.resolver.meaning reference source = some id := by
      have hseen := (l.resolver.readsThrough_resolve reference source).result c
      rw [hresolve, show l.resolver.collection = v.toCollection from rfl,
        Cache.coherent_iff.mp hc] at hseen
      exact hseen.symm
    exact namedOutside hv hroot hdisk hmeans fun hin => hout ((hencloses id).mpr hin)
  · have hinside : ∀ id ∈ v.inside, read id = v.toCollection.read id :=
      fun id hid => hread id ((hencloses id).mpr hid)
    exact ⟨fun hin => Resolver.expand_readingAs hin hinside,
      fun hin => Lowering.lower_readingAs hin hinside⟩

end Vault

/-! ### A file beside the vault -/

/-- The vault `/r/vault` with two notes, and a file beside it. -/
def besideDisk : Disk :=
  ⟨[(["r", "vault", "note.md"].map String.toList,
      .file (Text.encode "Before ![[../secret.md]] after.".toList)),
    (["r", "vault", "plain.md"].map String.toList, .file (Text.encode "plain".toList)),
    (["r", "secret.md"].map String.toList, .file (Text.encode "outside".toList))]⟩

/-- The vault. -/
def besideVault : Vault := ⟨besideDisk, ["r".toList, "vault".toList]⟩

/-- References in the vault. -/
def besideResolver : Resolver := ⟨besideVault.toCollection, none⟩

/-- The note that embeds the file beside the vault. -/
abbrev besideNote : DocumentId := .ofPath "note.md".toList

/-- The embed of the file beside the vault. -/
def secretEmbed : Hit Embed := ⟨⟨7, 24⟩, ⟨[], "../secret.md".toList⟩⟩

/-- An embed that goes out of the vault and back in. -/
def roundEmbed : Hit Embed := ⟨⟨0, 19⟩, ⟨[], "../vault/plain".toList⟩⟩

theorem besideVault_directory : ∀ n ∈ besideVault.directory, Path.IsName n := by decide

theorem noteMeant_secretEmbed :
    (besideResolver.seenThrough .empty).noteMeant besideNote secretEmbed =
      some (.ofPath "../secret.md".toList, .whole) := by
  rw [Resolver.seenThrough_empty]
  decide

theorem noteMeant_roundEmbed :
    (besideResolver.seenThrough .empty).noteMeant besideNote roundEmbed =
      some (.ofPath "../vault/plain.md".toList, .whole) := by
  rw [Resolver.seenThrough_empty]
  decide

/-- **A file beside a vault can be read.** A note of the vault embeds `../secret.md`; this means the
file of that name beside the vault's directory, whose text is brought in. -/
theorem secret_brought_in :
    Vault.open? besideDisk "/r/vault".toList = .ok besideVault ∧
    besideVault.contains besideNote = true ∧
    ((Reference.parse? "../secret.md".toList).bind fun reference =>
      (besideResolver.resolve .empty reference besideNote).1) =
        some (.ofPath "../secret.md".toList) ∧
    ¬besideVault.Encloses (.ofPath "../secret.md".toList) ∧
    (besideResolver.expand .empty "Before ![[../secret.md]] after.".toList besideNote).1.text =
      "Before outside after.".toList := by
  have hreads : (besideResolver.seenThrough .empty).Reads (.ofPath "../secret.md".toList) .whole
      "outside".toList := by
    rw [Resolver.seenThrough_empty]
    exact ⟨"outside".toList, by decide +kernel, by decide +kernel⟩
  refine ⟨rfl, by decide +kernel, by decide +kernel, ?_, ?_⟩
  · rw [Vault.encloses_iff besideVault_directory]
    decide +kernel
  · rw [Resolver.expand_of_one_embed rfl noteMeant_secretEmbed (by decide +kernel) hreads rfl]
    rfl

/-- The embed that comes back in asks for a note that lies below. -/
theorem readsIn_roundEmbed :
    besideResolver.ReadsIn .empty besideVault.inside "![[../vault/plain]]".toList besideNote := by
  have hinside : DocumentId.ofPath "../vault/plain.md".toList ∈ besideVault.inside := by
    show DocumentId.course _ |>.LeadsBelow _
    decide
  have hreads : (besideResolver.seenThrough .empty).Reads (.ofPath "../vault/plain.md".toList)
      .whole "plain".toList := by
    rw [Resolver.seenThrough_empty]
    exact ⟨"plain".toList, by decide, by decide⟩
  refine Weaver.asksIn_iff.mpr fun site hsite => ?_
  obtain ⟨e, he, rfl⟩ := List.mem_map.mp hsite
  rw [show Text.openEmbeds "![[../vault/plain]]".toList = [roundEmbed] from rfl,
    List.mem_singleton] at he
  subst he
  refine ⟨fun id part hasks _ => ?_, fun target content hok => ?_⟩
  · obtain ⟨rfl, -⟩ := Prod.mk.inj (Option.some.inj (hasks.symm.trans noteMeant_roundEmbed))
    exact hinside
  · obtain ⟨part, raw, hasks, -, hread, hpart⟩ := Weaver.answer_eq_ok_iff.mp hok
    obtain ⟨rfl, rfl⟩ := Prod.mk.inj (Option.some.inj (hasks.symm.trans noteMeant_roundEmbed))
    obtain rfl := Resolver.Reads.unique ⟨raw, hread, hpart⟩ hreads
    refine Weaver.asksIn_iff.mpr fun site hsite => ?_
    obtain ⟨e, he, -⟩ := List.mem_map.mp hsite
    rw [show Text.openEmbeds "plain".toList = [] from rfl] at he
    cases he

/-- An embed that goes out and comes back in means a document of the vault; and whatever the
documents outside read as, it brings in the same. -/
theorem documents_enclosed_iff_round :
    Vault.open? besideDisk "/r/vault".toList = .ok besideVault ∧ besideDisk.WellNamed ∧
    Cache.empty.Coherent besideVault.toCollection ∧
    (∀ reference, Reference.parse? "../vault/plain".toList = some reference →
      (besideResolver.resolve .empty reference besideNote).1 =
        some (.ofPath "../vault/plain.md".toList) ∧
      besideVault.Encloses (.ofPath "../vault/plain.md".toList)) ∧
    (∃ bytes, besideDisk.entry? (Path.folded (besideVault.locationOf
        (.ofPath "../vault/plain.md".toList))) = some (.file bytes) ∧
      Text.decode? bytes = some "plain".toList) ∧
    ∀ read, (∀ id, besideVault.Encloses id → read id = besideVault.read id) →
      (besideResolver.over (besideVault.toCollection.readingAs read)).expand .empty
          "![[../vault/plain]]".toList besideNote =
        besideResolver.expand .empty "![[../vault/plain]]".toList besideNote := by
  have hdisk : besideDisk.WellNamed := by decide +kernel
  have hcoherent := Cache.coherent_empty besideVault.toCollection
  obtain ⟨hresolved, hread, hruns⟩ := Vault.documents_enclosed_iff
    (show Vault.open? besideDisk "/r/vault".toList = .ok besideVault from rfl) hdisk none {} true
    hcoherent
  refine ⟨rfl, hdisk, hcoherent, fun reference hparse => ?_,
    hread _ _ (by decide +kernel), fun read hsame => (hruns read hsame _ _).1 readsIn_roundEmbed⟩
  have hmeans : (besideResolver.resolve .empty reference besideNote).1 =
      some (.ofPath "../vault/plain.md".toList) := by
    cases hparse
    decide +kernel
  exact ⟨hmeans, (hresolved reference besideNote _ hmeans).1.mpr (by decide +kernel)⟩

end NotePress
