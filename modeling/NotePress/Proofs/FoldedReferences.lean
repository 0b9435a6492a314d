import NotePress.Proofs.Enclosure
import NotePress.Proofs.Lists

/-!
# Joining a reference onto a directory

The segments of a directory and of a reference are folded on a stack, and the folding gives up as
soon as a `..` finds the stack empty. Both things it decides can be told without a stack. Segments
step above the root (`StepsAbove`) when some beginning of them goes up more often than it names
something; and if they do not, what is left on the stack is where the segments lead
(`Path.follow`).

`joinReference?_eq_none_iff` and `splitOn_of_joinReference?` say so of the joined path. In the
directory of its note a reference is joined to a longer path than at the root, unless to the same
(`exists_front_of_joinReference?`). So the ids that a reference may mean are those in the directory
and then those at the root, and no two are the same (`idsFor_eq`).
-/

namespace NotePress

/-! ### Segments -/

/-- Whether a segment names something. -/
def namesOne (segment : Text) : Bool := segment ≠ [] ∧ segment ≠ ['.'] ∧ segment ≠ ['.', '.']

/-- **Segments step above the root**, from some depth below it: a beginning of them goes up more
often than it names something and than the depth allows. -/
def StepsAbove (depth : Nat) (segments : List Text) : Prop :=
  ∃ front, front <+: segments ∧ depth + front.countP namesOne < front.count ['.', '.']

variable {depth : Nat} {segment : Text} {segments rest outer out : List Text}

/-- A segment stays, goes up, or names something. -/
theorem segment_cases (segment : Text) :
    (segment = [] ∨ segment = ['.']) ∨ segment = ['.', '.'] ∨ namesOne segment = true := by
  by_cases hstay : segment = [] ∨ segment = ['.']
  · exact .inl hstay
  · by_cases hup : segment = ['.', '.']
    · exact .inr (.inl hup)
    · obtain ⟨hnil, hdot⟩ := not_or.mp hstay
      exact .inr (.inr (decide_eq_true ⟨hnil, hdot, hup⟩))

theorem not_stepsAbove_nil (depth : Nat) : ¬StepsAbove depth [] := by
  rintro ⟨front, hfront, hlt⟩
  rw [List.prefix_nil.mp hfront] at hlt
  exact absurd hlt (Nat.not_lt_zero _)

/-- Nothing has gone up before the first segment. -/
theorem stepsAbove_cons : StepsAbove depth (segment :: rest) ↔ ∃ front, front <+: rest ∧
    depth + (segment :: front).countP namesOne < (segment :: front).count ['.', '.'] := by
  constructor
  · rintro ⟨front, hfront, hlt⟩
    rcases List.prefix_cons_iff.mp hfront with rfl | ⟨behind, rfl, hbehind⟩
    · exact absurd hlt (Nat.not_lt_zero _)
    · exact ⟨behind, hbehind, hlt⟩
  · rintro ⟨front, hfront, hlt⟩
    exact ⟨segment :: front, List.prefix_cons_iff.mpr (.inr ⟨front, rfl, hfront⟩), hlt⟩

theorem stepsAbove_stay (h : segment = [] ∨ segment = ['.']) :
    StepsAbove depth (segment :: rest) ↔ StepsAbove depth rest := by
  rw [stepsAbove_cons]
  rcases h with rfl | rfl <;> simp [StepsAbove, namesOne]

theorem stepsAbove_up_zero (rest : List Text) : StepsAbove 0 (['.', '.'] :: rest) :=
  stepsAbove_cons.mpr ⟨[], List.nil_prefix, by simp [namesOne]⟩

theorem stepsAbove_up_succ :
    StepsAbove (depth + 1) (['.', '.'] :: rest) ↔ StepsAbove depth rest := by
  rw [stepsAbove_cons]
  refine exists_congr fun front => and_congr_right fun _ => ?_
  have hnot : ¬namesOne ['.', '.'] = true := by simp [namesOne]
  rw [List.countP_cons_of_neg hnot, List.count_cons_self]
  omega

theorem stepsAbove_named (h : namesOne segment = true) :
    StepsAbove depth (segment :: rest) ↔ StepsAbove (depth + 1) rest := by
  rw [stepsAbove_cons]
  refine exists_congr fun front => and_congr_right fun _ => ?_
  have hup : segment ≠ ['.', '.'] := (of_decide_eq_true h).2.2
  rw [List.countP_cons_of_pos h, List.count_cons_of_ne hup]
  omega

/-! ### Folding -/

theorem foldSegment_stay (h : segment = [] ∨ segment = ['.']) (outer : List Text) :
    foldSegment outer segment = some outer := by
  unfold foldSegment
  rw [if_pos h]

theorem foldSegment_named (h : namesOne segment = true) (outer : List Text) :
    foldSegment outer segment = some (segment :: outer) := by
  obtain ⟨hnil, hdot, hup⟩ := of_decide_eq_true h
  unfold foldSegment
  rw [if_neg (not_or.mpr ⟨hnil, hdot⟩), if_neg hup]

/-- **Folding fails** exactly when the segments step above the root. -/
theorem foldSegments_eq_none_iff :
    foldSegments outer segments = none ↔ StepsAbove outer.length segments := by
  induction segments generalizing outer with
  | nil => exact iff_of_false (Option.some_ne_none _) (not_stepsAbove_nil _)
  | cons s rest ih =>
    rw [foldSegments]
    rcases segment_cases s with hstay | rfl | hnamed
    · rw [foldSegment_stay hstay, Option.bind_some, ih, stepsAbove_stay hstay]
    · cases outer with
      | nil => exact iff_of_true rfl (stepsAbove_up_zero rest)
      | cons inner outer => exact ih.trans stepsAbove_up_succ.symm
    · rw [foldSegment_named hnamed, Option.bind_some, ih, stepsAbove_named hnamed,
        List.length_cons]

/-- **What folding leaves** is where the segments lead. -/
theorem reverse_of_foldSegments (h : foldSegments outer segments = some out) :
    out.reverse = segments.foldl Path.follow outer.reverse := by
  induction segments generalizing outer with
  | nil =>
    cases h
    rfl
  | cons s rest ih =>
    rw [foldSegments] at h
    rw [List.foldl_cons]
    rcases segment_cases s with hstay | rfl | hnamed
    · rw [foldSegment_stay hstay, Option.bind_some] at h
      rw [ih h, Path.follow, if_pos hstay]
    · cases outer with
      | nil => cases h
      | cons inner outer =>
        have hup : Path.follow (inner :: outer).reverse ['.', '.'] = outer.reverse := by
          simp [Path.follow]
        rw [hup]
        exact ih h
    · rw [foldSegment_named hnamed, Option.bind_some] at h
      obtain ⟨hnil, hdot, hup⟩ := of_decide_eq_true hnamed
      rw [ih h, Path.follow, if_neg (not_or.mpr ⟨hnil, hdot⟩), if_neg hup, List.reverse_cons]

theorem foldSegments_append (outer front back : List Text) :
    foldSegments outer (front ++ back) =
      (foldSegments outer front).bind fun outer => foldSegments outer back := by
  induction front generalizing outer with
  | nil => rfl
  | cons s rest ih =>
    rw [List.cons_append, foldSegments, foldSegments]
    cases foldSegment outer s with
    | none => rfl
    | some next => exact ih next

/-- What lies below the stack is not touched by segments that fold without it. -/
theorem foldSegments_above (h : foldSegments outer segments = some out) (below : List Text) :
    foldSegments (outer ++ below) segments = some (out ++ below) := by
  induction segments generalizing outer with
  | nil =>
    cases h
    rfl
  | cons s rest ih =>
    rw [foldSegments] at h ⊢
    rcases segment_cases s with hstay | rfl | hnamed
    · rw [foldSegment_stay hstay, Option.bind_some] at h ⊢
      exact ih h
    · cases outer with
      | nil => cases h
      | cons inner outer => exact ih h
    · rw [foldSegment_named hnamed, Option.bind_some] at h ⊢
      exact ih h

/-- Names are folded as they are. -/
theorem foldSegments_names {names : List Text} (h : ∀ n ∈ names, Path.IsName n)
    (outer : List Text) : foldSegments outer names = some (names.reverse ++ outer) := by
  induction names generalizing outer with
  | nil => rfl
  | cons n rest ih =>
    obtain ⟨hn, hrest⟩ := List.forall_mem_cons.mp h
    have hnamed : namesOne n = true := decide_eq_true ⟨hn.ne_nil, hn.ne_dot, hn.ne_up⟩
    rw [foldSegments, foldSegment_named hnamed, Option.bind_some, ih hrest, List.reverse_cons,
      List.append_assoc]
    rfl

/-! ### Joined paths -/

variable {directory reference path : Text}

/-- The segments of a reference behind those of the directory, which a leading slash leaves out. -/
def joinedSegments (directory reference : Text) : List Text :=
  (if reference.head? = some '/' then [] else directory).splitOn '/' ++ reference.splitOn '/'

theorem no_slash_of_mem_joinedSegments :
    ∀ s ∈ joinedSegments directory reference, '/' ∉ s := by
  intro s hs
  rcases List.mem_append.mp hs with hs | hs
  · exact (Text.of_mem_splitOn hs).1
  · exact (Text.of_mem_splitOn hs).1

/-- What is left on the stack is joined, unless nothing is. -/
theorem joinReference?_of_foldSegments
    (h : foldSegments [] (joinedSegments directory reference) = some out) :
    joinReference? directory reference =
      if out = [] then none else some (Text.join ['/'] out.reverse) := by
  unfold joinReference?
  unfold joinedSegments at h
  simp only [h]
  cases out <;> rfl

/-- **A reference is joined to nothing** exactly when its segments step above the root or lead
there. -/
theorem joinReference?_eq_none_iff : joinReference? directory reference = none ↔
    StepsAbove 0 (joinedSegments directory reference) ∨
      (joinedSegments directory reference).foldl Path.follow [] = [] := by
  have habove : foldSegments [] (joinedSegments directory reference) = none ↔
      StepsAbove 0 (joinedSegments directory reference) := foldSegments_eq_none_iff
  cases hfold : foldSegments [] (joinedSegments directory reference) with
  | none =>
    have hnone : joinReference? directory reference = none := by
      unfold joinReference?
      unfold joinedSegments at hfold
      simp only [hfold]
    exact iff_of_true hnone (.inl (habove.mp hfold))
  | some out =>
    have hinside : ¬StepsAbove 0 (joinedSegments directory reference) := by
      intro h
      rw [habove.mpr h] at hfold
      cases hfold
    have hleft : out.reverse = (joinedSegments directory reference).foldl Path.follow [] :=
      reverse_of_foldSegments hfold
    rw [joinReference?_of_foldSegments hfold, or_iff_right hinside, ← hleft]
    simp

/-- A joined path is cut into what folding leaves, which are names. -/
theorem of_joinReference? (h : joinReference? directory reference = some path) :
    foldSegments [] (joinedSegments directory reference) = some (path.splitOn '/').reverse ∧
      ∀ s ∈ path.splitOn '/', Path.IsName s := by
  cases hfold : foldSegments [] (joinedSegments directory reference) with
  | none =>
    rw [joinReference?_eq_none_iff.mpr (.inl (foldSegments_eq_none_iff.mp hfold))] at h
    cases h
  | some out =>
    have hleft : out.reverse = (joinedSegments directory reference).foldl Path.follow [] :=
      reverse_of_foldSegments hfold
    have hnames : ∀ n ∈ out.reverse, Path.IsName n := by
      rw [hleft]
      exact Path.isName_of_mem_foldl_follow (by simp) no_slash_of_mem_joinedSegments
    rw [joinReference?_of_foldSegments hfold] at h
    by_cases hnil : out = []
    · rw [if_pos hnil] at h
      cases h
    · rw [if_neg hnil] at h
      cases h
      have hsplit : (Text.join ['/'] out.reverse).splitOn '/' = out.reverse :=
        List.splitOn_intercalate '/' (fun n hn => (hnames n hn).no_slash) (by simp [hnil])
      rw [hsplit, List.reverse_reverse]
      exact ⟨rfl, hnames⟩

/-- **A joined path is the folded path** of the segments. -/
theorem splitOn_of_joinReference? (h : joinReference? directory reference = some path) :
    path.splitOn '/' = (joinedSegments directory reference).foldl Path.follow [] := by
  rw [← List.reverse_reverse (path.splitOn '/')]
  exact reverse_of_foldSegments (of_joinReference? h).1

/-- **A path of names is joined to itself**, at the root. -/
theorem joinReference?_of_names (h : ∀ s ∈ path.splitOn '/', Path.IsName s) :
    joinReference? [] path = some path := by
  have hfold : foldSegments [] (joinedSegments [] path) = some (path.splitOn '/').reverse := by
    unfold joinedSegments
    rw [ite_self, List.splitOn_nil, List.singleton_append, foldSegments,
      foldSegment_stay (.inl rfl), Option.bind_some, foldSegments_names h, List.append_nil]
  have hne : (path.splitOn '/').reverse ≠ [] :=
    List.reverse_ne_nil_iff.mpr (List.splitOn_ne_nil '/' path)
  rw [joinReference?_of_foldSegments hfold, if_neg hne, List.reverse_reverse]
  exact congrArg some (Text.join_splitOn '/' path)

/-- Behind a directory a reference is joined to what it is at the root, with the folded directory
in front. -/
theorem exists_front_of_joinReference? {near far : Text}
    (hnear : joinReference? directory reference = some near)
    (hfar : joinReference? [] reference = some far) (hne : far ≠ near) :
    ∃ front, near = front ++ '/' :: far := by
  obtain ⟨hnear, -⟩ := of_joinReference? hnear
  obtain ⟨hfar, -⟩ := of_joinReference? hfar
  have hsame : near.splitOn '/' ≠ far.splitOn '/' := fun heq =>
    hne (Text.splitOn_inj.mp heq).symm
  by_cases habsolute : reference.head? = some '/'
  · unfold joinedSegments at hnear hfar
    rw [if_pos habsolute] at hnear hfar
    exact absurd (List.reverse_inj.mp (Option.some.inj (hnear.symm.trans hfar))) hsame
  · unfold joinedSegments at hnear hfar
    rw [if_neg habsolute, foldSegments_append] at hnear hfar
    obtain ⟨outer, -, hnear⟩ := Option.bind_eq_some_iff.mp hnear
    have habove : foldSegments ([] ++ outer) (reference.splitOn '/') = _ :=
      foldSegments_above hfar outer
    have hsegments : near.splitOn '/' = outer.reverse ++ far.splitOn '/' := by
      have h := List.reverse_eq_iff.mp (Option.some.inj (hnear.symm.trans habove))
      rw [h, List.reverse_append, List.reverse_reverse]
    have houter : outer.reverse ≠ [] := by
      intro hnil
      rw [hnil] at hsegments
      exact hsame hsegments
    have hjoin := Text.join_append ['/'] houter (List.splitOn_ne_nil '/' far)
    rw [← hsegments, Text.join_splitOn, Text.join_splitOn, List.append_assoc] at hjoin
    exact ⟨Text.join ['/'] outer.reverse, hjoin⟩

/-! ### The ids that a reference may mean -/

/-- The ids at a path: the plain path, and the path with the ending of notes. -/
def idsAt : Option Text → List DocumentId
  | none => []
  | some path => [.ofPath path, .ofPath (path ++ noteEnding)]

theorem mem_idsAt {path? : Option Text} {id : DocumentId} : id ∈ idsAt path? ↔
    ∃ path, path? = some path ∧ (id = .ofPath path ∨ id = .ofPath (path ++ noteEnding)) := by
  cases path? <;> simp [idsAt]

theorem flatMap_idsAt (join? : Text → Option Text) (directories : List Text) :
    (directories.filterMap join?).flatMap
        (fun path => [DocumentId.ofPath path, DocumentId.ofPath (path ++ noteEnding)]) =
      directories.flatMap fun directory => idsAt (join? directory) := by
  induction directories with
  | nil => rfl
  | cons directory rest ih =>
    rw [List.flatMap_cons, ← ih]
    cases hjoin : join? directory with
    | none => rw [List.filterMap_cons_none hjoin, idsAt, List.nil_append]
    | some path => rw [List.filterMap_cons_some hjoin, List.flatMap_cons, idsAt]

/-- Plain paths and their ids are told apart. -/
theorem ofPath_inj {a b : Text} (ha : Path.Plain a) (hb : Path.Plain b) :
    DocumentId.ofPath a = DocumentId.ofPath b ↔ a = b := by
  rw [DocumentId.ext_path_iff, ha.path_ofPath, hb.path_ofPath]

theorem idsAt_nodup {path? : Option Text} (h : ∀ path ∈ path?, Path.Plain path) :
    (idsAt path?).Nodup := by
  cases path? with
  | none => exact .nil
  | some path =>
    have hplain := h path rfl
    have hne : DocumentId.ofPath path ≠ .ofPath (path ++ noteEnding) := by
      rw [ne_eq, ofPath_inj hplain hplain.append_noteEnding]
      simp [noteEnding]
    simpa [idsAt] using hne

/-- An id in the directory of the note is no id at the root, if the paths there differ: it has more
slashes. -/
theorem idsAt_disjoint {near? far? : Option Text} (hnear : ∀ path ∈ near?, Path.Plain path)
    (hfar : ∀ path ∈ far?, Path.Plain path)
    (h : ∀ near far, near? = some near → far? = some far → ∃ front, near = front ++ '/' :: far) :
    (idsAt near?).Disjoint (idsAt far?) := by
  intro id hmem hmem'
  obtain ⟨near, rfl, hid⟩ := mem_idsAt.mp hmem
  obtain ⟨far, rfl, hid'⟩ := mem_idsAt.mp hmem'
  obtain ⟨front, rfl⟩ := h near far rfl rfl
  have hnear := hnear _ rfl
  have hfar := hfar _ rfl
  have hslash : noteEnding.count '/' = 0 := by decide
  have hmore : id.path.count '/' = (front ++ '/' :: far).count '/' := by
    rcases hid with rfl | rfl
    · rw [hnear.path_ofPath]
    · rw [hnear.append_noteEnding.path_ofPath, List.count_append, hslash, Nat.add_zero]
  have hless : id.path.count '/' = far.count '/' := by
    rcases hid' with rfl | rfl
    · rw [hfar.path_ofPath]
    · rw [hfar.append_noteEnding.path_ofPath, List.count_append, hslash, Nat.add_zero]
  rw [hless, List.count_append, List.count_cons_self] at hmore
  omega

/-- **The ids that a reference may mean**: those in the directory of its note, and then those at
the root unless they are the same. No id comes twice. -/
theorem idsFor_eq {reference : Text} {base : DocumentId} {near far : Option Text}
    (hne : forwardSlashes reference.trim ≠ [])
    (hnear : joinReference? base.directory (forwardSlashes reference.trim) = near)
    (hfar : joinReference? [] (forwardSlashes reference.trim) = far) :
    idsFor reference base = idsAt near ++ (if far = near then [] else idsAt far) ∧
      (idsFor reference base).Nodup := by
  have hwritten := backslash_not_mem_forwardSlashes reference.trim
  have hdirectory : '\\' ∉ base.directory := fun h =>
    base.backslash_not_mem (Text.beforeLast_subset h)
  have hplain : ∀ path ∈ near, Path.Plain path := fun path hpath =>
    plain_of_joinReference? hdirectory hwritten (hnear.trans hpath)
  have hplain' : ∀ path ∈ far, Path.Plain path := fun path hpath =>
    plain_of_joinReference? (by simp) hwritten (hfar.trans hpath)
  have hnodup : (idsAt near ++ (if far = near then [] else idsAt far)).Nodup := by
    by_cases hsame : far = near
    · rw [if_pos hsame, List.append_nil]
      exact idsAt_nodup hplain
    · rw [if_neg hsame]
      refine List.nodup_append'.mpr ⟨idsAt_nodup hplain, idsAt_nodup hplain',
        idsAt_disjoint hplain hplain' fun path path' hpath hpath' => ?_⟩
      refine exists_front_of_joinReference? (hnear.trans hpath) (hfar.trans hpath') ?_
      rintro rfl
      exact hsame (hpath'.trans hpath.symm)
  suffices heq : idsFor reference base = idsAt near ++ (if far = near then [] else idsAt far) from
    ⟨heq, heq ▸ hnodup⟩
  unfold idsFor
  simp only [hne, if_false]
  rw [flatMap_idsAt]
  unfold linkDirectories
  split
  · rename_i hroot
    -- a reference with a slash in front and one in a note at the root have one directory to go by
    have hsame : near = far := by
      rw [← hnear, ← hfar]
      rcases hroot with habsolute | hdirectory
      · unfold joinReference?
        simp only [habsolute, if_true]
      · rw [hdirectory]
    subst hsame
    rw [List.flatMap_singleton, hfar, if_pos rfl, List.append_nil]
    exact eraseDups_of_nodup (idsAt_nodup hplain)
  · rw [List.flatMap_cons, List.flatMap_singleton, hnear, hfar]
    by_cases hsame : far = near
    · subst hsame
      have hagain : (idsAt far).removeAll (idsAt far) = [] :=
        List.filter_eq_nil_iff.mpr fun id hid => by simp [hid]
      rw [if_pos rfl, List.append_nil, List.eraseDups_append, hagain,
        eraseDups_of_nodup (idsAt_nodup hplain)]
      exact List.append_nil _
    · rw [if_neg hsame] at hnodup ⊢
      exact eraseDups_of_nodup hnodup

theorem length_idsAt_le (path? : Option Text) : (idsAt path?).length ≤ 2 := by
  cases path? <;> simp [idsAt]

/-- **References are folded.** A reference is joined onto a directory to nothing exactly when the
segments step above the root or end there, and else to the path that they fold to; all segments of
that path are names, and joined again at the root it stays as it is.

The ids that a reference may mean in a note are those in the note's directory, and then those at the
root unless they are the same, each time the plain path and then the path with the ending of notes.
So there are at most four, no id comes twice, and all lead below wherever the root is. -/
theorem references_folded :
    (∀ directory reference : Text,
      let segments := joinedSegments directory reference
      (joinReference? directory reference = none ↔
        StepsAbove 0 segments ∨ segments.foldl Path.follow [] = []) ∧
      ∀ path, joinReference? directory reference = some path →
        path = Text.join ['/'] (segments.foldl Path.follow []) ∧
        (∀ s ∈ path.splitOn '/', Path.IsName s) ∧
        joinReference? [] path = some path) ∧
    ∀ (reference : Text) (base : DocumentId),
      let written := forwardSlashes reference.trim
      let near := joinReference? base.directory written
      let far := joinReference? [] written
      idsFor reference base =
        (if written = [] then [] else idsAt near ++ if far = near then [] else idsAt far) ∧
      (idsFor reference base).length ≤ 4 ∧
      (idsFor reference base).Nodup ∧
      ∀ id ∈ idsFor reference base, (∀ s ∈ id.path.splitOn '/', Path.IsName s) ∧
        ∀ directory, id.course.LeadsBelow directory := by
  refine ⟨fun directory reference => ⟨joinReference?_eq_none_iff, fun path h => ?_⟩,
    fun reference base => ?_⟩
  · have hnames := (of_joinReference? h).2
    refine ⟨?_, hnames, joinReference?_of_names hnames⟩
    rw [← splitOn_of_joinReference? h, Text.join_splitOn]
  · intro written near far
    have hplain : ∀ id ∈ idsFor reference base, (∀ s ∈ id.path.splitOn '/', Path.IsName s) ∧
        ∀ directory, id.course.LeadsBelow directory := by
      intro id hid
      obtain ⟨path, hpath, rfl⟩ := exists_plain_of_mem_idsFor hid
      rw [hpath.path_ofPath]
      exact ⟨hpath.names, hpath.leadsBelow⟩
    by_cases hne : written = []
    · have hnone : idsFor reference base = [] := if_pos hne
      rw [if_pos hne, hnone]
      exact ⟨rfl, Nat.zero_le _, .nil, by simp⟩
    · obtain ⟨hids, hnodup⟩ := idsFor_eq hne
        (rfl : joinReference? base.directory written = near)
        (rfl : joinReference? [] written = far)
      have hnear := length_idsAt_le near
      have hfar := length_idsAt_le far
      rw [if_neg hne]
      refine ⟨hids, ?_, hnodup, hplain⟩
      rw [hids, List.length_append]
      split
      · exact Nat.add_le_add hnear (Nat.zero_le 2)
      · exact Nat.add_le_add hnear hfar

/-- A directory that folds to the root gives no ids of its own. -/
example : idsFor " ./c".toList (.ofPath "a/../b.md".toList) =
    [.ofPath "c".toList, .ofPath "c.md".toList] := by
  decide

end NotePress
