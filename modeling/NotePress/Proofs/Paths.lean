import Mathlib.Data.List.Basic
import NotePress.Collection.Vault

/-!
# Where paths lead

Where an absolute path leads is a matter of its text: `.` and empty segments stay, `..` goes up, and
the root is above itself (`Path.folded`). A disk that walks a path gets there or nowhere
(`Disk.locate_eq_ok`). The path of a document is the vault's directory with the segments of the id
behind it, so it leads where these segments lead from the directory (`Vault.folded_locationOf`).

Read by themselves, the segments of an id go some steps above where they start and then down by some
names; this is their `Course`. A document lies below the vault's directory if and only if its course
comes back down by the names of the directory itself, and goes on from there
(`Vault.encloses_iff`).
-/

namespace NotePress

/-! ### Pieces of a text -/

/-- To show something of every text, show it of texts without a separator, and of a text with one
when it holds behind the first one. -/
theorem Text.splitOn_induct (sep : Char) {motive : Text → Prop}
    (single : ∀ t, sep ∉ t → motive t)
    (cons : ∀ a b, sep ∉ a → motive b → motive (a ++ sep :: b)) (t : Text) : motive t := by
  induction h : t.length using Nat.strongRecOn generalizing t with
  | _ n ih =>
    by_cases hsep : sep ∈ t
    · obtain ⟨a, b, rfl, ha⟩ := List.eq_append_cons_of_mem hsep
      refine cons a b ha (ih b.length ?_ b rfl)
      simp only [← h, List.length_append, List.length_cons]
      omega
    · exact single t hsep

/-- A piece does not contain the separator, and nothing that the text does not. -/
theorem Text.of_mem_splitOn {sep : Char} {t piece : Text} (h : piece ∈ t.splitOn sep) :
    sep ∉ piece ∧ ∀ c ∈ piece, c ∈ t := by
  induction t using Text.splitOn_induct sep with
  | single t ht =>
    rw [List.splitOn_eq_singleton ht, List.mem_singleton] at h
    subst h
    exact ⟨ht, fun _ hc => hc⟩
  | cons a b ha ih =>
    rw [List.splitOn_append_cons_self_of_not_mem ha, List.mem_cons] at h
    rcases h with rfl | h
    · exact ⟨ha, fun c hc => by simp [hc]⟩
    · exact ⟨(ih h).1, fun c hc => by simp [(ih h).2 c hc]⟩

/-- Every other character stands in a piece. -/
theorem Text.exists_mem_splitOn {sep c : Char} {t : Text} (hc : c ≠ sep) (h : c ∈ t) :
    ∃ piece ∈ t.splitOn sep, c ∈ piece := by
  induction t using Text.splitOn_induct sep with
  | single t ht => exact ⟨t, by simp [List.splitOn_eq_singleton ht], h⟩
  | cons a b ha ih =>
    rw [List.splitOn_append_cons_self_of_not_mem ha]
    rcases List.mem_append.mp h with h | h
    · exact ⟨a, List.mem_cons_self .., h⟩
    · obtain ⟨piece, hpiece, hmem⟩ := ih ((List.mem_cons.mp h).resolve_left hc)
      exact ⟨piece, List.mem_cons_of_mem _ hpiece, hmem⟩

/-- An ending without a separator goes to the last piece. -/
theorem Text.mem_splitOn_append {sep : Char} {t ending piece : Text} (hending : sep ∉ ending)
    (h : piece ∈ (t ++ ending).splitOn sep) :
    piece ∈ t.splitOn sep ∨ ∃ last ∈ t.splitOn sep, piece = last ++ ending := by
  induction t using Text.splitOn_induct sep with
  | single t ht =>
    rw [List.splitOn_eq_singleton (by simp [ht, hending]), List.mem_singleton] at h
    exact .inr ⟨t, by simp [List.splitOn_eq_singleton ht], h⟩
  | cons a b ha ih =>
    rw [List.append_assoc, List.cons_append, List.splitOn_append_cons_self_of_not_mem ha,
      List.mem_cons] at h
    rw [List.splitOn_append_cons_self_of_not_mem ha]
    rcases h with rfl | h
    · exact .inl (List.mem_cons_self ..)
    · rcases ih h with h | ⟨last, hlast, rfl⟩
      · exact .inl (List.mem_cons_of_mem _ h)
      · exact .inr ⟨last, List.mem_cons_of_mem _ hlast, rfl⟩

/-- A text is what its pieces are joined to. -/
theorem Text.join_splitOn (sep : Char) (t : Text) : Text.join [sep] (t.splitOn sep) = t :=
  List.intercalate_splitOn sep

/-- Texts with the same pieces are the same. -/
theorem Text.splitOn_inj {sep : Char} {a b : Text} : a.splitOn sep = b.splitOn sep ↔ a = b := by
  refine ⟨fun h => ?_, fun h => h ▸ rfl⟩
  rw [← Text.join_splitOn sep a, h, Text.join_splitOn]

theorem Text.join_append (sep : Text) {front back : List Text} (hfront : front ≠ [])
    (hback : back ≠ []) : Text.join sep (front ++ back) =
      Text.join sep front ++ sep ++ Text.join sep back := by
  unfold Text.join
  induction front with
  | nil => exact absurd rfl hfront
  | cons piece rest ih =>
    by_cases hrest : rest = []
    · subst hrest
      rw [List.singleton_append, List.intercalate_cons_of_ne_nil hback,
        List.intercalate_singleton]
    · rw [List.cons_append, List.intercalate_cons_of_ne_nil (by simp [hrest]), ih hrest,
        List.intercalate_cons_of_ne_nil hrest]
      simp only [List.append_assoc]

/-! ### Folding -/

namespace Path

/-- What a file or directory can be called. -/
structure IsName (name : Text) : Prop where
  ne_nil : name ≠ []
  ne_dot : name ≠ ['.']
  ne_up : name ≠ ['.', '.']
  no_slash : '/' ∉ name

instance (name : Text) : Decidable (IsName name) :=
  decidable_of_iff (name ≠ [] ∧ name ≠ ['.'] ∧ name ≠ ['.', '.'] ∧ '/' ∉ name)
    ⟨fun ⟨hnil, hdot, hup, hslash⟩ => ⟨hnil, hdot, hup, hslash⟩,
      fun h => ⟨h.ne_nil, h.ne_dot, h.ne_up, h.no_slash⟩⟩

/-- Follows one more segment of a path. -/
def follow (names : List Text) (segment : Text) : List Text :=
  if segment = [] ∨ segment = ['.'] then names
  else if segment = ['.', '.'] then names.dropLast
  else names ++ [segment]

/-- Where an absolute path leads, with `.` and `..` folded. -/
def folded (path : Text) : List Text := (path.splitOn '/').foldl follow []

theorem follow_nil (names : List Text) : follow names [] = names := by simp [follow]

theorem follow_name {name : Text} (h : IsName name) (names : List Text) :
    follow names name = names ++ [name] := by
  simp [follow, h.ne_nil, h.ne_dot, h.ne_up]

theorem foldl_follow_names {names : List Text} (h : ∀ n ∈ names, IsName n) (before : List Text) :
    names.foldl follow before = before ++ names := by
  induction names generalizing before with
  | nil => simp
  | cons n rest ih =>
    rw [List.foldl_cons, follow_name (h n (List.mem_cons_self ..)),
      ih fun m hm => h m (List.mem_cons_of_mem _ hm), List.append_assoc, List.singleton_append]

/-- What is followed from names are names. -/
theorem isName_of_mem_follow {names : List Text} (h : ∀ n ∈ names, IsName n) {segment : Text}
    (hslash : '/' ∉ segment) : ∀ n ∈ follow names segment, IsName n := by
  intro n hn
  unfold follow at hn
  split at hn
  · exact h n hn
  · rename_i hstay
    split at hn
    · exact h n (List.dropLast_subset _ hn)
    · rename_i hup
      rcases List.mem_append.mp hn with hn | hn
      · exact h n hn
      · rw [List.mem_singleton] at hn
        subst hn
        exact ⟨fun e => hstay (.inl e), fun e => hstay (.inr e), hup, hslash⟩

theorem isName_of_mem_foldl_follow {segments names : List Text} (h : ∀ n ∈ names, IsName n)
    (hslash : ∀ s ∈ segments, '/' ∉ s) : ∀ n ∈ segments.foldl follow names, IsName n := by
  induction segments generalizing names with
  | nil => exact h
  | cons s rest ih =>
    exact ih (isName_of_mem_follow h (hslash s (List.mem_cons_self ..)))
      fun s hs => hslash s (List.mem_cons_of_mem _ hs)

/-- A path leads to names. -/
theorem isName_of_mem_folded {path : Text} : ∀ n ∈ folded path, IsName n :=
  isName_of_mem_foldl_follow (by simp) fun _ hs => (Text.of_mem_splitOn hs).1

theorem splitOn_ofNames {names : List Text} (h : ∀ n ∈ names, IsName n) (hne : names ≠ []) :
    (ofNames names).splitOn '/' = [] :: names := by
  unfold ofNames Text.join
  rw [show '/' :: ['/'].intercalate names = [] ++ '/' :: ['/'].intercalate names from rfl,
    List.splitOn_append_cons_self_of_not_mem (by simp),
    List.splitOn_intercalate '/' (fun n hn => (h n hn).no_slash) hne]

/-- Names lead to themselves. -/
theorem folded_ofNames {names : List Text} (h : ∀ n ∈ names, IsName n) :
    folded (ofNames names) = names := by
  by_cases hne : names = []
  · subst hne
    rfl
  · unfold folded
    rw [splitOn_ofNames h hne, List.foldl_cons, follow_nil, foldl_follow_names h, List.nil_append]

theorem isAbsolute_of_no_slash {path : Text} (h : '/' ∉ path) : isAbsolute path = false :=
  decide_eq_false fun hslash => h (List.mem_of_head? hslash)

/-- A segment that is joined onto a path is followed from where the path leads. -/
theorem folded_join {path segment : Text} (hpath : path ≠ []) (hslash : '/' ∉ segment) :
    folded (join path segment) = follow (folded path) segment := by
  have hbehind : ∀ front : Text,
      folded (front ++ '/' :: segment) = follow (folded front) segment := by
    intro front
    unfold folded
    rw [List.splitOn_append_cons_self, List.splitOn_eq_singleton hslash, List.foldl_append,
      List.foldl_cons, List.foldl_nil]
  unfold join
  rw [isAbsolute_of_no_slash hslash, if_neg Bool.false_ne_true]
  by_cases hlast : path.getLast? = some '/'
  · -- A slash at the end leaves an empty last piece, which leads nowhere.
    obtain ⟨front, rfl⟩ := List.getLast?_eq_some_iff.mp hlast
    have hfront : folded (front ++ ['/']) = folded front := by
      unfold folded
      rw [List.splitOn_append_cons_self, List.foldl_append]
      exact follow_nil _
    rw [if_pos (.inr hlast), hfront, List.append_assoc]
    exact hbehind front
  · rw [if_neg (by simp [hpath, hlast])]
    exact hbehind path

theorem join_ne_nil {path : Text} (hpath : path ≠ []) (segment : Text) :
    join path segment ≠ [] := by
  unfold join
  split
  · rename_i habsolute
    rintro rfl
    cases habsolute
  · split <;> simp [hpath]

theorem isAbsolute_foldl_join {path : Text} (hpath : isAbsolute path = true)
    (segments : List Text) : isAbsolute (segments.foldl join path) = true := by
  induction segments generalizing path with
  | nil => exact hpath
  | cons s rest ih =>
    refine ih ?_
    obtain ⟨behind, rfl⟩ := List.head?_eq_some_iff.mp (of_decide_eq_true hpath)
    unfold join
    split
    · assumption
    · split <;> rfl

theorem folded_foldl_join {path : Text} (hpath : path ≠ []) {segments : List Text}
    (hslash : ∀ s ∈ segments, '/' ∉ s) :
    folded (segments.foldl join path) = segments.foldl follow (folded path) := by
  induction segments generalizing path with
  | nil => rfl
  | cons s rest ih =>
    rw [List.foldl_cons, ih (join_ne_nil hpath s) fun s hs => hslash s (List.mem_cons_of_mem _ hs),
      folded_join hpath (hslash s (List.mem_cons_self ..)), List.foldl_cons]

end Path

/-! ### Walking -/

namespace Disk

variable {d : Disk}

/-- All that stands on a disk has a name, and so have the directories above it. -/
def WellNamed (d : Disk) : Prop := ∀ e ∈ d.entries, ∀ n ∈ e.1, Path.IsName n

instance (d : Disk) : Decidable d.WellNamed :=
  inferInstanceAs (Decidable (∀ e ∈ d.entries, ∀ n ∈ e.1, Path.IsName n))

theorem step_eq_ok {here there : List Text} {name : Text} (h : d.step here name = .ok there) :
    there = Path.follow here name := by
  unfold step at h
  unfold Path.follow
  split at h
  · cases h
  · cases h
  · split at h
    · rename_i hstay
      cases h
      rw [if_pos hstay]
    · rename_i hstay
      rw [if_neg hstay]
      split at h
      · rename_i hup
        cases h
        rw [if_pos hup]
      · rename_i hup
        rw [if_neg hup]
        split at h
        · cases h
        · split at h <;> cases h
          rfl

theorem walk_eq_ok {here there names : List Text} (h : d.walk here names = .ok there) :
    there = names.foldl Path.follow here := by
  induction names generalizing here with
  | nil =>
    cases h
    rfl
  | cons name rest ih =>
    unfold walk at h
    cases hstep : d.step here name with
    | error e =>
      rw [hstep] at h
      cases h
    | ok next =>
      rw [hstep] at h
      rw [List.foldl_cons, ← step_eq_ok hstep]
      exact ih h

/-- **A path leads where its text says**, if it leads anywhere. -/
theorem locate_eq_ok {path : Text} {names : List Text} (h : d.locate path = .ok names) :
    names = Path.folded path := by
  unfold locate at h
  split at h
  · cases h
  · exact walk_eq_ok h

/-- Bytes that are read stand where the path leads. -/
theorem readBytes_eq_ok {path : Text} {bytes : List UInt8} (h : d.readBytes path = .ok bytes) :
    ∃ names, d.locate path = .ok names ∧ d.entry? names = some (.file bytes) := by
  unfold readBytes at h
  cases hlocate : d.locate path with
  | error e =>
    rw [hlocate] at h
    cases h
  | ok names =>
    rw [hlocate] at h
    refine ⟨names, rfl, ?_⟩
    cases hentry : d.entry? names with
    | none => simp [Except.bind, hentry] at h
    | some e =>
      cases e with
      | directory => simp [Except.bind, hentry] at h
      | file bytes =>
        simp only [Except.bind, hentry, Except.ok.injEq] at h
        rw [h]

/-- A text that is read stands where the path leads. -/
theorem readText_eq_ok {path text : Text} (h : d.readText path = .ok text) :
    ∃ bytes, d.entry? (Path.folded path) = some (.file bytes) ∧ Text.decode? bytes = some text := by
  unfold readText at h
  cases hbytes : d.readBytes path with
  | error e =>
    rw [hbytes] at h
    cases h
  | ok bytes =>
    obtain ⟨names, hlocate, hentry⟩ := readBytes_eq_ok hbytes
    rw [← locate_eq_ok hlocate]
    cases hdecode : Text.decode? bytes with
    | none => simp [Except.bind, hbytes, hdecode] at h
    | some found =>
      simp only [Except.bind, hbytes, hdecode, Except.ok.injEq] at h
      exact ⟨bytes, hentry, h ▸ hdecode⟩

theorem isFile_iff {path : Text} :
    d.isFile path = true ↔ ∃ bytes, d.locate path = .ok (Path.folded path) ∧
      d.entry? (Path.folded path) = some (.file bytes) := by
  unfold isFile
  cases hlocate : d.locate path with
  | error e => simp
  | ok names =>
    obtain rfl := locate_eq_ok hlocate
    cases hentry : d.entry? (Path.folded path) with
    | none => simp [hentry]
    | some e => cases e <;> simp [hentry]

theorem mem_filesBelow {names below : List Text} : below ∈ d.filesBelow names ↔
    ∃ bytes, (names ++ below, .file bytes) ∈ d.entries := by
  unfold filesBelow
  rw [List.mem_filterMap]
  constructor
  · rintro ⟨⟨there, entry⟩, hentry, hthere⟩
    cases entry with
    | directory => cases hthere
    | file bytes =>
      rw [List.append_eq_of_isPrefixOf?_eq_some hthere]
      exact ⟨bytes, hentry⟩
  · rintro ⟨bytes, hfile⟩
    exact ⟨_, hfile, List.isPrefixOf?_eq_some_iff_append_eq.mpr rfl⟩

end Disk

/-! ### Courses -/

/-- Where segments lead from where they start: some steps up, and then down by names. -/
structure Course where
  ups : Nat
  names : List Text

namespace Course

/-- Follows one more segment. -/
def follow (k : Course) (segment : Text) : Course :=
  if segment = [] ∨ segment = ['.'] then k
  else if segment = ['.', '.'] then
    if k.names = [] then ⟨k.ups + 1, []⟩ else ⟨k.ups, k.names.dropLast⟩
  else ⟨k.ups, k.names ++ [segment]⟩

/-- The course of segments. -/
def of (segments : List Text) : Course := segments.foldl follow ⟨0, []⟩

/-- Where a course leads from a directory. -/
def startingAt (k : Course) (directory : List Text) : List Text :=
  directory.take (directory.length - k.ups) ++ k.names

/-- A course leads below the directory that it starts at: as far as it goes up, it comes back down
by the names of the directory itself, and then goes on. -/
def LeadsBelow (k : Course) (directory : List Text) : Prop :=
  ∃ inside, inside ≠ [] ∧ k.names = directory.drop (directory.length - k.ups) ++ inside

theorem startingAt_follow (k : Course) (directory : List Text) (segment : Text) :
    (k.follow segment).startingAt directory =
      Path.follow (k.startingAt directory) segment := by
  unfold follow Path.follow startingAt
  split
  · rfl
  · split
    · split
      · rename_i hnames
        -- Nothing was named yet, so this step goes up from the directory; at the root it stays.
        rw [hnames, List.append_nil, List.append_nil, List.dropLast_eq_take, List.length_take,
          List.take_take]
        congr 1
        simp only
        omega
      · rename_i hnames
        rw [List.dropLast_append_of_ne_nil hnames]
    · rw [List.append_assoc]

/-- Segments lead from a directory where their course does. -/
theorem startingAt_of (segments directory : List Text) :
    (of segments).startingAt directory = segments.foldl Path.follow directory := by
  have hrun : ∀ k : Course, (segments.foldl follow k).startingAt directory =
      segments.foldl Path.follow (k.startingAt directory) := by
    induction segments with
    | nil => exact fun _ => rfl
    | cons s rest ih =>
      intro k
      rw [List.foldl_cons, List.foldl_cons, ih, startingAt_follow]
  simpa [of, startingAt] using hrun ⟨0, []⟩

/-- The course of segments that never go up. -/
theorem of_eq_of_no_up {segments : List Text} (h : ['.', '.'] ∉ segments) :
    of segments = ⟨0, segments.filter fun s => s ≠ [] ∧ s ≠ ['.']⟩ := by
  have hrun : ∀ names, segments.foldl follow ⟨0, names⟩ =
      ⟨0, names ++ segments.filter fun s => s ≠ [] ∧ s ≠ ['.']⟩ := by
    induction segments with
    | nil => simp
    | cons s rest ih =>
      intro names
      obtain ⟨hs, hrest⟩ := not_or.mp (mt List.mem_cons.mpr h)
      have ih := ih hrest
      by_cases hstay : s = [] ∨ s = ['.']
      · rw [List.foldl_cons, follow, if_pos hstay, ih, List.filter_cons_of_neg]
        rcases hstay with rfl | rfl <;> simp
      · obtain ⟨hnil, hdot⟩ := not_or.mp hstay
        rw [List.foldl_cons, follow, if_neg hstay, if_neg (Ne.symm hs), ih,
          List.filter_cons_of_pos (by simp [hnil, hdot]), List.append_assoc,
          List.singleton_append]
  simpa [of] using hrun []

theorem of_names {names : List Text} (h : ∀ n ∈ names, Path.IsName n) : of names = ⟨0, names⟩ := by
  rw [of_eq_of_no_up fun hup => (h _ hup).ne_up rfl, List.filter_eq_self.mpr fun n hn => by
    simp [(h n hn).ne_nil, (h n hn).ne_dot]]

instance (k : Course) (directory : List Text) : Decidable (k.LeadsBelow directory) :=
  decidable_of_iff (directory.drop (directory.length - k.ups) <+: k.names ∧
      (directory.drop (directory.length - k.ups)).length < k.names.length) <| by
    constructor
    · rintro ⟨⟨inside, hinside⟩, hlt⟩
      refine ⟨inside, ?_, hinside.symm⟩
      rintro rfl
      simp [← hinside] at hlt
    · rintro ⟨inside, hne, hnames⟩
      refine ⟨⟨inside, hnames.symm⟩, ?_⟩
      rw [hnames, List.length_append]
      exact Nat.lt_add_of_pos_right (List.length_pos_iff.mpr hne)

/-- A course that never goes up leads below wherever it starts, if it goes anywhere. -/
theorem leadsBelow_of_no_ups {k : Course} (hups : k.ups = 0) (hnames : k.names ≠ [])
    (directory : List Text) : k.LeadsBelow directory :=
  ⟨k.names, hnames, by simp [hups]⟩

theorem leadsBelow_iff {k : Course} {directory : List Text} :
    k.LeadsBelow directory ↔
      ∃ inside, inside ≠ [] ∧ k.startingAt directory = directory ++ inside := by
  have hcut : ∀ inside, k.startingAt directory = directory ++ inside ↔
      k.names = directory.drop (directory.length - k.ups) ++ inside := by
    intro inside
    calc k.startingAt directory = directory ++ inside
        ↔ directory.take (directory.length - k.ups) ++ k.names =
            directory.take (directory.length - k.ups) ++
              (directory.drop (directory.length - k.ups) ++ inside) := by
          rw [← List.append_assoc, List.take_append_drop]
          rfl
      _ ↔ _ := List.append_right_inj _
  simp only [LeadsBelow, hcut]

end Course

/-! ### Documents of a vault -/

/-- Where the path of a document leads from the root of its collection. -/
def DocumentId.course (id : DocumentId) : Course := .of (id.path.splitOn '/')

namespace Vault

/-- The path of a document, folded, lies below the directory of the vault. -/
def Encloses (v : Vault) (id : DocumentId) : Prop :=
  ∃ inside, inside ≠ [] ∧ Path.folded (v.locationOf id) = v.directory ++ inside

/-- A vault is opened at names, which are a directory. -/
theorem of_open?_eq_ok {disk : Disk} {path : Text} {v : Vault}
    (h : open? disk path = .ok v) :
    v.disk = disk ∧ (∀ n ∈ v.directory, Path.IsName n) ∧
      disk.entry? v.directory = some .directory := by
  unfold open? at h
  split at h
  · cases h
  · rename_i names hlocate
    split at h
    · rename_i hdirectory
      cases h
      obtain rfl := Disk.locate_eq_ok hlocate
      exact ⟨rfl, Path.isName_of_mem_folded, hdirectory⟩
    · cases h

variable {v : Vault}

/-- **The path of a document leads where the segments of its id lead from the directory.** -/
theorem folded_locationOf (hv : ∀ n ∈ v.directory, Path.IsName n) (id : DocumentId) :
    Path.folded (v.locationOf id) = id.course.startingAt v.directory := by
  have hroot : v.root ≠ [] := by simp [root, Path.ofNames]
  unfold locationOf DocumentId.course
  rw [Path.folded_foldl_join hroot fun s hs => (Text.of_mem_splitOn hs).1,
    Course.startingAt_of, root, Path.folded_ofNames hv]

/-- What an absolute path leads to has the id of the names there. -/
theorem idAt_eq_some_iff {path : Text} {id : DocumentId} (hpath : Path.isAbsolute path = true) :
    v.idAt path = some id ↔ v.disk.locate path = .ok (Path.folded path) ∧
      v.idOfNames (Path.folded path) = some id := by
  unfold idAt Path.join
  rw [if_pos hpath]
  cases hlocate : v.disk.locate path with
  | error e => simp
  | ok names =>
    obtain rfl := Disk.locate_eq_ok hlocate
    simp

theorem mem_list_iff {within : Option Text} {id : DocumentId} :
    id ∈ v.list within ↔ ∃ path ∈ v.listedPaths within, v.idAt path = some id := by
  unfold list
  rw [DocumentId.mem_sort, List.mem_filterMap]

theorem isAbsolute_listingStart (v : Vault) (within : Option Text) :
    Path.isAbsolute (v.listingStart within) = true := by
  unfold listingStart
  split
  · exact Path.isAbsolute_foldl_join rfl _
  · rfl

/-- A listing comes by the files below where it starts, and leaves out the hidden ones. -/
theorem mem_listedPaths_iff {within : Option Text} {path : Text} : path ∈ v.listedPaths within ↔
    ∃ names below, v.disk.locate (v.listingStart within) = .ok names ∧
      below ∈ v.disk.filesBelow names ∧ below.any opensWithDot = false ∧
      path = below.foldl Path.join (v.listingStart within) := by
  unfold listedPaths
  simp only
  cases v.disk.locate (v.listingStart within) with
  | error e => simp
  | ok names =>
    constructor
    · intro h
      obtain ⟨below, hbelow, rfl⟩ := List.mem_map.mp h
      obtain ⟨hbelow, hshown⟩ := List.mem_filter.mp hbelow
      exact ⟨names, below, rfl, hbelow, by rwa [Bool.not_eq_true'] at hshown, rfl⟩
    · rintro ⟨_, below, ⟨⟩, hbelow, hshown, rfl⟩
      refine List.mem_map_of_mem (List.mem_filter.mpr ⟨hbelow, ?_⟩)
      rwa [Bool.not_eq_true']

theorem folded_listed (hdisk : v.disk.WellNamed) {within : Option Text} {names below : List Text}
    (hlocate : v.disk.locate (v.listingStart within) = .ok names)
    (hbelow : below ∈ v.disk.filesBelow names) :
    Path.folded (below.foldl Path.join (v.listingStart within)) = names ++ below := by
  obtain ⟨bytes, hfile⟩ := Disk.mem_filesBelow.mp hbelow
  have hnames : ∀ n ∈ below, Path.IsName n := fun n hn =>
    hdisk _ hfile n (List.mem_append_right _ hn)
  have hstart := v.isAbsolute_listingStart within
  have hne : v.listingStart within ≠ [] := by
    intro hnil
    rw [hnil] at hstart
    cases hstart
  rw [Path.folded_foldl_join hne fun n hn => (hnames n hn).no_slash,
    Path.foldl_follow_names hnames, ← Disk.locate_eq_ok hlocate]

/-- A listing comes by files of the disk. -/
theorem exists_file_of_mem_listedPaths (hdisk : v.disk.WellNamed) {within : Option Text}
    {path : Text} (h : path ∈ v.listedPaths within) : Path.isAbsolute path = true ∧
      ∃ bytes, (Path.folded path, .file bytes) ∈ v.disk.entries := by
  obtain ⟨names, below, hlocate, hbelow, -, rfl⟩ := mem_listedPaths_iff.mp h
  refine ⟨Path.isAbsolute_foldl_join (v.isAbsolute_listingStart within) _, ?_⟩
  rw [folded_listed hdisk hlocate hbelow]
  exact Disk.mem_filesBelow.mp hbelow

/-- **A document lies below the directory exactly when its course does.** -/
theorem encloses_iff (hv : ∀ n ∈ v.directory, Path.IsName n) (id : DocumentId) :
    v.Encloses id ↔ id.course.LeadsBelow v.directory := by
  unfold Encloses
  rw [Course.leadsBelow_iff, folded_locationOf hv]

end Vault

end NotePress
