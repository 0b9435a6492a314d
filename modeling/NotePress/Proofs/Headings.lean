import NotePress.Note.Section
import NotePress.Proofs.Lists
import NotePress.Proofs.Scanning
import NotePress.Proofs.Trimming

/-!
# Heading lines

`HeadingLine` is the grammar of a heading: up to three spaces, one to six `#`, and either nothing or
blanks and a title. Where the title ends is not said by a rule on its last characters, but by what
may stand behind it (`EndsTitle`): the title is the shortest beginning that leaves no more than that
(`TitleOf`). A line has one reading (`readHeading?_eq_some_iff`).
-/

namespace NotePress

/-! ### Titles -/

/-- **What may stand behind a title**: blanks, and in front of them a run of `#` behind a blank. -/
inductive EndsTitle : Text → Prop where
  | blanks {blanks : Text} (h : ∀ c ∈ blanks, isSpaceTab c = true) : EndsTitle blanks
  | closed {gap marks blanks : Text} (hgap : ∀ c ∈ gap, isSpaceTab c = true) (hne : gap ≠ [])
      (hmarks : ∀ c ∈ marks, c = '#') (hsome : marks ≠ [])
      (hblanks : ∀ c ∈ blanks, isSpaceTab c = true) : EndsTitle (gap ++ (marks ++ blanks))

/-- **The title** of what stands behind the marks and blanks of a heading: the shortest beginning
that leaves what may stand behind a title. -/
structure TitleOf (rest title : Text) : Prop where
  ends : ∃ behind, rest = title ++ behind ∧ EndsTitle behind
  shortest : ∀ other behind, rest = other ++ behind → EndsTitle behind →
    title.length ≤ other.length

variable {rest title line : Text} {depth : Nat}

theorem TitleOf.unique {title' : Text} (h : TitleOf rest title) (h' : TitleOf rest title') :
    title = title' := by
  obtain ⟨behind, hrest, hbehind⟩ := h.ends
  obtain ⟨behind', hrest', hbehind'⟩ := h'.ends
  have hlength := Nat.le_antisymm (h.shortest _ _ hrest' hbehind') (h'.shortest _ _ hrest hbehind)
  exact (List.append_inj (hrest.symm.trans hrest') hlength).1

theorem ne_mark_of_isSpaceTab {c : Char} (h : isSpaceTab c = true) : decide (c = '#') = false := by
  rw [decide_eq_false_iff_not]
  rintro rfl
  cases h

/-- A title in front of a closing run is cut off in front of the run's blanks. -/
theorem headingTitle_of_closed {front gap marks blanks : Text}
    (hgap : ∀ c ∈ gap, isSpaceTab c = true) (hne : gap ≠ []) (hmarks : ∀ c ∈ marks, c = '#')
    (hsome : marks ≠ []) (hblanks : ∀ c ∈ blanks, isSpaceTab c = true) :
    headingTitle (front ++ (gap ++ (marks ++ blanks))) = Text.dropTail isSpaceTab front := by
  have hcore : Text.dropTail isSpaceTab (front ++ (gap ++ (marks ++ blanks))) =
      front ++ gap ++ marks := by
    rw [← List.append_assoc, ← List.append_assoc, Text.dropTail_append_of_all hblanks]
    refine Text.dropTail_eq_self fun c hc => ?_
    rw [List.getLast?_append_of_ne_nil _ hsome] at hc
    rw [hmarks c (List.mem_of_getLast? hc)]
    rfl
  have hlast : ∀ c ∈ (front ++ gap).getLast?, isSpaceTab c = true := by
    intro c hc
    rw [List.getLast?_append_of_ne_nil _ hne] at hc
    exact hgap c (List.mem_of_getLast? hc)
  have hunclosed : Text.dropTail (· = '#') (front ++ gap ++ marks) = front ++ gap := by
    rw [Text.dropTail_append_of_all fun c hc => decide_eq_true (hmarks c hc)]
    exact Text.dropTail_eq_self fun c hc => ne_mark_of_isSpaceTab (hlast c hc)
  have hrun : front ++ gap ≠ front ++ gap ++ marks := fun heq => hsome (by simpa using heq)
  have hblank : ((front ++ gap).getLast?.any isSpaceTab) = true := by
    rw [List.getLast?_append_of_ne_nil _ hne, List.getLast?_eq_some_getLast hne]
    exact hgap _ (List.getLast_mem hne)
  unfold headingTitle
  simp only [hcore, hunclosed]
  rw [if_pos ⟨hrun, hblank⟩, Text.dropTail_append_of_all hgap]

/-- Behind the title that is read stands what may stand behind a title. -/
theorem exists_ends_headingTitle (rest : Text) :
    ∃ behind, rest = headingTitle rest ++ behind ∧ EndsTitle behind := by
  obtain ⟨blanks, hrest, hblanks, -⟩ :=
    Text.dropTail_eq_iff.mp (rfl : Text.dropTail isSpaceTab rest = _)
  obtain ⟨marks, hcore, hmarks, -⟩ :=
    Text.dropTail_eq_iff.mp (rfl : Text.dropTail (· = '#') (Text.dropTail isSpaceTab rest) = _)
  obtain ⟨gap, hunclosed, hgap, htitle⟩ := Text.dropTail_eq_iff.mp (rfl : Text.dropTail isSpaceTab
    (Text.dropTail (· = '#') (Text.dropTail isSpaceTab rest)) = _)
  unfold headingTitle
  simp only
  split
  · rename_i hrun
    refine ⟨gap ++ (marks ++ blanks), ?_,
      .closed hgap ?_ (fun c hc => of_decide_eq_true (hmarks c hc)) ?_ hblanks⟩
    · rw [← List.append_assoc, ← List.append_assoc, ← hunclosed, ← hcore, ← hrest]
    · -- without blanks in front, the character in front of the run would be a blank and none
      rintro rfl
      rw [List.append_nil] at hunclosed
      rw [← hunclosed] at htitle
      obtain ⟨c, hc, hblank⟩ := Option.any_eq_true _ _ |>.mp hrun.2
      rw [htitle c hc] at hblank
      cases hblank
    · rintro rfl
      rw [List.append_nil] at hcore
      exact hrun.1 hcore.symm
  · exact ⟨blanks, hrest, .blanks hblanks⟩

theorem length_headingTitle_le (rest : Text) :
    (headingTitle rest).length ≤ (Text.dropTail isSpaceTab rest).length := by
  unfold headingTitle
  simp only
  split
  · exact Nat.le_trans (Text.length_dropTail_le _ _) (Text.length_dropTail_le _ _)
  · exact Nat.le_refl _

/-- **Reading a title.** -/
theorem titleOf_headingTitle (rest : Text) : TitleOf rest (headingTitle rest) := by
  refine ⟨exists_ends_headingTitle rest, fun other behind hrest hbehind => ?_⟩
  subst hrest
  cases hbehind with
  | blanks hblanks =>
    refine Nat.le_trans (length_headingTitle_le _) ?_
    rw [Text.dropTail_append_of_all hblanks]
    exact Text.length_dropTail_le _ _
  | closed hgap hne hmarks hsome hblanks =>
    rw [headingTitle_of_closed hgap hne hmarks hsome hblanks]
    exact Text.length_dropTail_le _ _

/-! ### Lines -/

/-- **How a heading line is written**, with its depth and its title. -/
inductive HeadingLine : Text → Nat → Text → Prop where
  | bare {indent depth : Nat} (hindent : indent ≤ 3) (hdepth : 1 ≤ depth ∧ depth ≤ 6) :
      HeadingLine (List.replicate indent ' ' ++ List.replicate depth '#') depth []
  | titled {indent depth : Nat} {gap rest title : Text} (hindent : indent ≤ 3)
      (hdepth : 1 ≤ depth ∧ depth ≤ 6) (hgap : ∀ c ∈ gap, isSpaceTab c = true) (hne : gap ≠ [])
      (hrest : ∀ c ∈ rest.head?, isSpaceTab c = false) (htitle : TitleOf rest title) :
      HeadingLine (List.replicate indent ' ' ++ (List.replicate depth '#' ++ (gap ++ rest))) depth
        title

/-- A text cut behind its first run of one character. -/
theorem eq_replicate_append {c : Char} {t run rest : Text} (hrun : t.takeWhile (· = c) = run)
    (hrest : t.dropWhile (· = c) = rest) :
    t = List.replicate run.length c ++ rest := by
  obtain ⟨hsplit, hall⟩ := eq_append_of_takeWhile hrun hrest
  rw [hsplit, ← List.eq_replicate_iff.mpr ⟨rfl, fun x hx => of_decide_eq_true (hall x hx)⟩]

/-- A run of one character is taken up to what stops it. -/
theorem takeWhile_replicate_append {c : Char} {n : Nat} {rest : Text}
    (hrest : ∀ x ∈ rest.head?, x ≠ c) :
    (List.replicate n c ++ rest).takeWhile (· = c) = List.replicate n c ∧
      (List.replicate n c ++ rest).dropWhile (· = c) = rest := by
  have hstop : ∀ x ∈ rest.head?, decide (x = c) = false := fun x hx =>
    decide_eq_false (hrest x hx)
  rw [takeWhile_append_of_head hstop, dropWhile_append_of_head hstop]
  simp

theorem headingLine_of_readHeading? (h : readHeading? line = some (depth, title)) :
    HeadingLine line depth title := by
  unfold readHeading? at h
  simp only at h
  split at h
  · rename_i hbounds
    obtain ⟨hindent, hdepth⟩ := hbounds
    have hline := eq_replicate_append (t := line) (c := ' ') rfl rfl
    have hrest := eq_replicate_append (t := line.dropWhile (· = ' ')) (c := '#') rfl rfl
    rw [hrest] at hline
    split at h
    · rename_i hnil
      cases h
      rw [hnil, List.append_nil] at hline
      have hbare := HeadingLine.bare hindent hdepth
      rwa [← hline] at hbare
    · rename_i c behind hbehind
      split at h
      · rename_i hblank
        cases h
        obtain ⟨hsplit, hgap⟩ := eq_append_of_takeWhile (p := isSpaceTab)
          (t := (line.dropWhile (· = ' ')).dropWhile (· = '#')) rfl rfl
        have hne : ((line.dropWhile (· = ' ')).dropWhile (· = '#')).takeWhile isSpaceTab ≠ [] := by
          rw [hbehind, List.takeWhile_cons_of_pos hblank]
          exact List.cons_ne_nil _ _
        have hfirst : ∀ x ∈ (((line.dropWhile (· = ' ')).dropWhile (· = '#')).dropWhile
            isSpaceTab).head?, isSpaceTab x = false := by
          intro x hx
          have hnot := List.head?_dropWhile_not isSpaceTab
            ((line.dropWhile (· = ' ')).dropWhile (· = '#'))
          rw [hx] at hnot
          exact hnot
        have htitled := HeadingLine.titled hindent hdepth hgap hne hfirst (titleOf_headingTitle _)
        rwa [← hsplit, ← hline] at htitled
      · cases h
  · cases h

theorem HeadingLine.readHeading? (h : HeadingLine line depth title) :
    readHeading? line = some (depth, title) := by
  cases h with
  | @bare indent _ hindent hdepth =>
    obtain ⟨d, rfl⟩ := Nat.exists_eq_add_of_le' hdepth.1
    have hmarks : ∀ x ∈ (List.replicate (d + 1) '#').head?, x ≠ ' ' := by
      rintro x ⟨⟩
      decide
    obtain ⟨hspaces, hbehind⟩ := takeWhile_replicate_append (n := indent) hmarks
    obtain ⟨hrun, hnil⟩ := @takeWhile_replicate_append '#' (d + 1) [] (by simp)
    rw [List.append_nil] at hrun hnil
    unfold NotePress.readHeading?
    simp only [hspaces, hbehind, hrun, hnil, List.length_replicate]
    rw [if_pos ⟨hindent, hdepth⟩]
  | @titled indent _ gap rest _ hindent hdepth hgap hne hrest htitle =>
    obtain ⟨d, rfl⟩ := Nat.exists_eq_add_of_le' hdepth.1
    obtain ⟨first, gap, rfl⟩ := List.exists_cons_of_ne_nil hne
    have hfirst := hgap first (List.mem_cons_self ..)
    have hmarks : ∀ x ∈ (List.replicate (d + 1) '#' ++ (first :: gap ++ rest)).head?, x ≠ ' ' := by
      rintro x ⟨⟩
      decide
    have hstop : ∀ x ∈ (first :: gap ++ rest).head?, x ≠ '#' := by
      rintro x ⟨⟩ rfl
      cases hfirst
    obtain ⟨hspaces, hbehind⟩ := takeWhile_replicate_append (n := indent) hmarks
    obtain ⟨hrun, htail⟩ := takeWhile_replicate_append (n := d + 1) hstop
    have hdrop : (first :: gap ++ rest).dropWhile isSpaceTab = rest := by
      rw [dropWhile_append_of_head hrest, List.dropWhile_eq_nil_iff.mpr hgap, List.nil_append]
    unfold NotePress.readHeading?
    simp only [hspaces, hbehind, hrun, htail, List.length_replicate]
    rw [if_pos ⟨hindent, hdepth⟩]
    simp only [List.cons_append] at hdrop ⊢
    rw [if_pos hfirst, hdrop, htitle.unique (titleOf_headingTitle rest)]

/-- **Reading a heading line.** -/
theorem readHeading?_eq_some_iff :
    readHeading? line = some (depth, title) ↔ HeadingLine line depth title :=
  ⟨headingLine_of_readHeading?, HeadingLine.readHeading?⟩

/-- A closing run stands behind a blank; one that does not is part of the title. -/
example : readHeading? "  ## A # B## ##  ".toList = some (2, "A # B##".toList) := by
  decide +kernel

end NotePress
