import NotePress.Proofs.Headings
import NotePress.Proofs.LeftmostFences

/-!
# The section under a heading

A section is a heading with the lines up to the next heading that is not deeper (`Section.Of`),
where headings in code fences do not count. It is said of the lines of the text, without an index:
what is in front of the heading, the heading, what is under it, and what is behind.

`section_under_heading` says that `Text.sectionUnder?` gives the section of the first heading of
that title, less the blank lines at its ends, and nothing just when there is no such heading.
Subsections and fences are in it in full, since a fence never reaches over a heading
(`Section.Of.fence_cases`).
-/

namespace NotePress

/-! ### Headings of a text -/

/-- **A heading of a text**: a line that is written as one and stands in no code fence. -/
structure Text.HasHeading (t : Text) (l : Line) (depth : Nat) (title : Text) : Prop where
  mem : l ∈ t.lines
  free : isFenced t.fences l.start = false
  written : HeadingLine l.content depth title

/-- The headings among some lines, the first of which has the index `n`. -/
def headingsFrom (fences : List Fence) (n : Nat) (lines : List Line) : List Heading :=
  ((lines.zipIdx n).filter fun l => !isFenced fences l.1.start).filterMap fun l =>
    (readHeading? l.1.content).map fun h => ⟨l.2, h.1, h.2⟩

section

variable {fences : List Fence} {n : Nat} {lines rest : List Line} {l : Line}

theorem headingsFrom_append : headingsFrom fences n (lines ++ rest) =
    headingsFrom fences n lines ++ headingsFrom fences (n + lines.length) rest := by
  unfold headingsFrom
  rw [List.zipIdx_append, List.filter_append, List.filterMap_append]

theorem headingsFrom_heading {depth : Nat} {title : Text} (hfree : isFenced fences l.start = false)
    (hwritten : HeadingLine l.content depth title) :
    headingsFrom fences n (l :: rest) = ⟨n, depth, title⟩ :: headingsFrom fences (n + 1) rest := by
  unfold headingsFrom
  rw [List.zipIdx_cons, List.filter_cons_of_pos (by simp [hfree]), List.filterMap_cons_some]
  rw [hwritten.readHeading?]
  rfl

theorem of_mem_headingsFrom {h : Heading} (hmem : h ∈ headingsFrom fences n lines) :
    ∃ l ∈ lines, isFenced fences l.start = false ∧ HeadingLine l.content h.depth h.title := by
  obtain ⟨⟨l, i⟩, hl, hread⟩ := List.mem_filterMap.mp hmem
  obtain ⟨hl, hfree⟩ := List.mem_filter.mp hl
  obtain ⟨⟨depth, title⟩, hread', rfl⟩ := Option.map_eq_some_iff.mp hread
  exact ⟨l, List.fst_mem_of_mem_zipIdx hl, by simpa using hfree, readHeading?_eq_some_iff.mp hread'⟩

end

/-! ### Sections -/

/-- A heading, with the lines in front of it, under it and behind what is under it. -/
structure Section where
  before : List Line
  heading : Line
  depth : Nat
  inner : List Line
  after : List Line

namespace Section

/-- **A section of a text**: its heading, and under it everything up to the next heading of that
depth or a smaller one, or to the end of the text. -/
structure Of (sec : Section) (t : Text) : Prop where
  lines : t.lines = sec.before ++ sec.heading :: (sec.inner ++ sec.after)
  heading : ∃ title, t.HasHeading sec.heading sec.depth title
  deeper : ∀ l ∈ sec.inner, ∀ depth title, t.HasHeading l depth title → sec.depth < depth
  ends : ∀ l, sec.after.head? = some l → ∃ depth title, t.HasHeading l depth title ∧
    depth ≤ sec.depth

/-- **The section under a title**: that of the first heading whose title is the same in lower case,
with one space between words. -/
structure Under (sec : Section) (t wanted : Text) : Prop extends sec.Of t where
  titled : ∃ title, t.HasHeading sec.heading sec.depth title ∧ headingKey title = headingKey wanted
  first : ∀ l ∈ sec.before, ∀ depth title, t.HasHeading l depth title →
    headingKey title ≠ headingKey wanted

/-- Where a section ends. -/
def stop (sec : Section) (t : Text) : Nat := (sec.after.head?.map (·.start)).getD t.length

end Section

/-- **Lines less the blank ones** in front and at the end. -/
structure Trims (lines kept : List Line) : Prop where
  split : ∃ front back, lines = front ++ (kept ++ back) ∧
    (∀ l ∈ front, l.content.allBlank = true) ∧ ∀ l ∈ back, l.content.allBlank = true
  first : ∀ l, kept.head? = some l → l.content.allBlank = false
  last : ∀ l, kept.getLast? = some l → l.content.allBlank = false

variable {t wanted : Text} {sec : Section} {lines kept : List Line}

theorem exists_trims (lines : List Line) : ∃ kept, Trims lines kept := by
  obtain ⟨back, hsplit, hback, hlast⟩ := rdropWhile_eq_iff.mp
    (rfl : (lines.dropWhile fun l => l.content.allBlank).rdropWhile
      (fun l => l.content.allBlank) = _)
  have hfront := List.takeWhile_append_dropWhile (p := fun l : Line => l.content.allBlank)
    (l := lines)
  refine ⟨_, ⟨_, back, by rw [← hsplit, hfront], fun l => List.mem_takeWhile_imp, hback⟩,
    fun l hl => ?_, hlast⟩
  obtain ⟨tail, htail⟩ := List.head?_eq_some_iff.mp hl
  have hnot := List.head?_dropWhile_not (fun l : Line => l.content.allBlank) lines
  rw [hsplit, htail] at hnot
  exact hnot

/-- Dropping the blank lines at the ends of some lines. -/
theorem Trims.withoutOuterBlanks_eq (h : Trims lines kept) :
    withoutOuterBlanks lines = Text.unlines (kept.map (·.content)) := by
  obtain ⟨front, back, rfl, hfront, hback⟩ := h.split
  have hfront' : ∀ c ∈ front.map (·.content), Text.allBlank c = true := by simpa using hfront
  have hback' : ∀ c ∈ back.map (·.content), Text.allBlank c = true := by simpa using hback
  have hdrop : ((front ++ (kept ++ back)).map (·.content)).dropWhile Text.allBlank =
      if kept = [] then [] else kept.map (·.content) ++ back.map (·.content) := by
    rw [List.map_append, List.dropWhile_append_of_pos hfront', List.map_append]
    split
    · rename_i hnil
      rw [hnil, List.map_nil, List.nil_append, List.dropWhile_eq_nil_iff]
      exact hback'
    · rename_i hne
      obtain ⟨first, rest, rfl⟩ := List.exists_cons_of_ne_nil hne
      rw [List.map_cons, List.cons_append, List.dropWhile_cons_of_neg]
      rw [h.first first rfl]
      exact Bool.false_ne_true
  unfold withoutOuterBlanks
  simp only
  rw [hdrop]
  congr 1
  show List.rdropWhile Text.allBlank _ = _
  split
  · rename_i hnil
    rw [hnil]
    rfl
  · refine rdropWhile_eq_iff.mpr ⟨_, rfl, hback', fun c hc => ?_⟩
    rw [List.getLast?_map] at hc
    obtain ⟨l, hl, rfl⟩ := Option.map_eq_some_iff.mp hc
    exact h.last l hl

/-- A line that is not blank is kept. -/
theorem Trims.mem_of_not_blank (h : Trims lines kept) {l : Line} (hl : l ∈ lines)
    (hblank : l.content.allBlank = false) : l ∈ kept := by
  obtain ⟨front, back, rfl, hfront, hback⟩ := h.split
  rcases List.mem_append.mp hl with hl | hl
  · rw [hfront l hl] at hblank
    cases hblank
  · rcases List.mem_append.mp hl with hl | hl
    · exact hl
    · rw [hback l hl] at hblank
      cases hblank

/-! ### Finding a section -/

/-- If no heading has the title, there is no section. -/
theorem sectionUnder?_eq_none (h : ∀ l depth title, t.HasHeading l depth title →
    headingKey title ≠ headingKey wanted) : t.sectionUnder? wanted = none := by
  have hall : t.headings.dropWhile (fun h => headingKey h.title ≠ headingKey wanted) = [] := by
    refine List.dropWhile_eq_nil_iff.mpr fun h' hmem => decide_eq_true ?_
    obtain ⟨l, hl, hfree, hwritten⟩ := of_mem_headingsFrom (n := 0) hmem
    exact h l _ _ ⟨hl, hfree, hwritten⟩
  unfold Text.sectionUnder?
  simp only [hall]

/-- **The section under a title is the one that is found.** -/
theorem Section.Under.sectionUnder?_eq (h : sec.Under t wanted) :
    t.sectionUnder? wanted = some (withoutOuterBlanks sec.inner) := by
  obtain ⟨title, hheading, hkey⟩ := h.titled
  -- headings in front have other titles, headings under it are deeper
  have hbefore : ∀ k ∈ headingsFrom t.fences 0 sec.before,
      decide (headingKey k.title ≠ headingKey wanted) = true := by
    intro k hk
    obtain ⟨l, hl, hfree, hwritten⟩ := of_mem_headingsFrom hk
    exact decide_eq_true (h.first l hl _ _ ⟨by rw [h.lines]; simp [hl], hfree, hwritten⟩)
  have hinner : ∀ n, ∀ k ∈ headingsFrom t.fences n sec.inner,
      ¬decide (k.depth ≤ sec.depth) = true := by
    intro n k hk
    obtain ⟨l, hl, hfree, hwritten⟩ := of_mem_headingsFrom hk
    have := h.deeper l hl _ _ ⟨by rw [h.lines]; simp [hl], hfree, hwritten⟩
    rw [decide_eq_true_eq]
    omega
  have hheadings : t.headings = headingsFrom t.fences 0 t.lines := rfl
  rw [h.lines, headingsFrom_append, headingsFrom_heading hheading.free hheading.written,
    headingsFrom_append, Nat.zero_add] at hheadings
  have hstop : ((((headingsFrom t.fences (sec.before.length + 1) sec.inner ++
      headingsFrom t.fences (sec.before.length + 1 + sec.inner.length) sec.after).find?
        fun k => k.depth ≤ sec.depth).map (·.line)).getD t.lines.length) =
      sec.before.length + 1 + sec.inner.length := by
    rw [List.find?_append, List.find?_eq_none.mpr (hinner _), Option.none_or]
    rcases hafter : sec.after with _ | ⟨next, rest⟩
    · rw [h.lines, hafter]
      simp only [headingsFrom, List.zipIdx_nil, List.filter_nil, List.filterMap_nil, List.find?_nil,
        Option.map_none, Option.getD_none, List.length_append, List.length_cons, List.length_nil]
      omega
    · obtain ⟨depth, title', hnext, hdepth⟩ := h.ends next (by rw [hafter]; rfl)
      rw [headingsFrom_heading hnext.free hnext.written,
        List.find?_cons_of_pos (by simpa using hdepth)]
      rfl
  unfold Text.sectionUnder?
  simp only [hheadings]
  rw [List.dropWhile_append_of_pos hbefore, List.dropWhile_cons_of_neg (by simp [hkey])]
  simp only [hstop]
  congr 2
  rw [h.lines]
  have hsplit : sec.before ++ sec.heading :: (sec.inner ++ sec.after) =
      (sec.before ++ [sec.heading]) ++ (sec.inner ++ sec.after) := by simp
  have hlength : sec.before.length + 1 = (sec.before ++ [sec.heading]).length := by simp
  rw [hsplit, hlength, List.take_length_add_append, List.take_left, List.drop_left]

/-- There is a section under a title that some heading has. -/
theorem exists_section_under {l : Line} {depth : Nat} {title : Text}
    (h : t.HasHeading l depth title) (hkey : headingKey title = headingKey wanted) :
    ∃ sec : Section, sec.Under t wanted := by
  rcases exists_first_or (fun l => ∃ depth title, t.HasHeading l depth title ∧
    headingKey title = headingKey wanted) t.lines with
    hnone | ⟨before, heading, rest, hlines, hfirst, hbefore⟩
  · exact absurd ⟨depth, title, h, hkey⟩ (hnone l h.mem)
  · obtain ⟨depth, title, hheading, hkey⟩ := hfirst
    have hfirst : ∀ l ∈ before, ∀ depth title, t.HasHeading l depth title →
        headingKey title ≠ headingKey wanted :=
      fun l hl depth title hl' hkey' => hbefore l hl ⟨depth, title, hl', hkey'⟩
    rcases exists_first_or (fun l => ∃ depth' title, t.HasHeading l depth' title ∧ depth' ≤ depth)
      rest with hnone | ⟨inner, next, after, hrest, hnext, hinner⟩
    · refine ⟨⟨before, heading, depth, rest, []⟩, ⟨by simpa using hlines, ⟨title, hheading⟩, ?_,
        by simp⟩, ⟨title, hheading, hkey⟩, hfirst⟩
      exact fun l hl depth' title' hl' => Nat.lt_of_not_le fun hle => hnone l hl ⟨_, _, hl', hle⟩
    · refine ⟨⟨before, heading, depth, inner, next :: after⟩, ⟨by rw [hlines, hrest],
        ⟨title, hheading⟩, ?_, ?_⟩, ⟨title, hheading, hkey⟩, hfirst⟩
      · exact fun l hl depth' title' hl' => Nat.lt_of_not_le fun hle => hinner l hl ⟨_, _, hl', hle⟩
      · rintro l ⟨⟩
        exact hnext

/-! ### What is in a section -/

/-- A line that a fence covers. -/
def Fence.Covers (f : Fence) (l : Line) : Prop := f.span.contains l.start = true

theorem Fence.covers_iff {f : Fence} {l : Line} :
    f.Covers l ↔ f.span.start ≤ l.start ∧ l.start < f.span.stop := by
  simp [Covers, Span.contains]

/-- A line that opens or closes a fence is not blank. -/
theorem FenceLine.not_blank {line : Text} (h : (FenceLine.read? line).isSome) :
    line.allBlank = false := by
  obtain ⟨quote, c, rest, rfl, -, hc⟩ := FenceLine.exists_marks h
  rw [Text.allBlank, List.all_eq_false]
  refine ⟨c, by simp, ?_⟩
  rcases hc with rfl | rfl <;> decide

theorem Text.HasHeading.not_covered {l : Line} {depth : Nat} {title : Text}
    (h : t.HasHeading l depth title) {f : Fence} (hf : f ∈ t.fences) : ¬f.Covers l := by
  have hfree := h.free
  rw [isFenced, List.any_eq_false] at hfree
  exact hfree f hf

namespace Section.Of

variable (h : sec.Of t)
include h

theorem pairwise : (sec.before ++ sec.heading :: (sec.inner ++ sec.after)).Pairwise
    fun a b => a.stop < b.start :=
  h.lines ▸ t.laid_lines.pairwise

/-- The lines under a heading stand between the heading and the end of the section. -/
theorem inner_bounds {l : Line} (hl : l ∈ sec.inner) :
    sec.heading.stop < l.start ∧ l.start < sec.stop t ∧ l.stop ≤ sec.stop t := by
  have hpairs := (List.pairwise_append.mp h.pairwise).2.1
  have hmem : l ∈ t.lines := by rw [h.lines]; simp [hl]
  refine ⟨(List.pairwise_cons.mp hpairs).1 l (by simp [hl]), ?_⟩
  unfold Section.stop
  rcases hafter : sec.after with _ | ⟨next, rest⟩
  · exact ⟨t.linedFrom_lines.start_lt hmem, t.linedFrom_lines.stop_le hmem⟩
  · have hlt := (List.pairwise_append.mp (List.pairwise_cons.mp hpairs).2).2.2 l hl next
      (by rw [hafter]; exact List.mem_cons_self ..)
    exact ⟨Nat.lt_of_le_of_lt l.start_le_stop hlt, Nat.le_of_lt hlt⟩

/-- The lines behind a section start where it ends, or later. -/
theorem stop_le_after {l : Line} (hl : l ∈ sec.after) : sec.stop t ≤ l.start := by
  have hpairs := (List.pairwise_append.mp
    (List.pairwise_cons.mp (List.pairwise_append.mp h.pairwise).2.1).2).2.1
  unfold Section.stop
  rcases hafter : sec.after with _ | ⟨next, rest⟩
  · rw [hafter] at hl
    cases hl
  · rw [hafter] at hl hpairs
    rcases List.mem_cons.mp hl with rfl | hl
    · exact Nat.le_refl _
    · exact Nat.le_trans next.start_le_stop (Nat.le_of_lt ((List.pairwise_cons.mp hpairs).1 l hl))

theorem before_lt {l : Line} (hl : l ∈ sec.before) : l.stop < sec.heading.start :=
  (List.pairwise_append.mp h.pairwise).2.2 l hl sec.heading (List.mem_cons_self ..)

/-- A line of the text that starts in the section is one under its heading. -/
theorem mem_inner {l : Line} (hl : l ∈ t.lines) (hstart : sec.heading.stop < l.start)
    (hstop : l.start < sec.stop t) : l ∈ sec.inner := by
  have := sec.heading.start_le_stop
  have := l.start_le_stop
  rw [h.lines, List.mem_append, List.mem_cons, List.mem_append] at hl
  rcases hl with hl | rfl | hl | hl
  · have := h.before_lt hl
    omega
  · omega
  · exact hl
  · have := h.stop_le_after hl
    omega

/-- **No fence reaches over the ends of a section**: it ends in front of the heading, stands in the
section, or starts behind it. -/
theorem fence_cases {f : Fence} (hf : f ∈ t.fences) :
    f.span.stop ≤ sec.heading.start ∨
      sec.heading.stop < f.span.start ∧ f.span.stop ≤ sec.stop t ∨ sec.stop t ≤ f.span.start := by
  have hstands := Text.stands_of_mem_fences hf
  have hlt := hstands.lt
  obtain ⟨title, hheading⟩ := h.heading
  have hfree := Fence.covers_iff.not.mp (hheading.not_covered hf)
  obtain ⟨before, opening, inner, closing, after, hlines, -, hmade⟩ :=
    exists_madeOf_of_mem_fencesFrom hf
  have hopening : opening ∈ t.lines := by rw [hlines]; simp
  have hstart : f.span.start = opening.start := by rw [hmade.span]
  have := opening.start_le_stop
  rw [h.lines, List.mem_append, List.mem_cons, List.mem_append] at hopening
  rcases hopening with hmem | rfl | hmem | hmem
  · have := h.before_lt hmem
    omega
  · omega
  · have hbounds := h.inner_bounds hmem
    refine .inr (.inl ⟨by omega, ?_⟩)
    -- the next heading is behind the fence, since it is not in it
    have hend := hstands.stop_le_length
    rcases hafter : sec.after with _ | ⟨next, rest⟩
    · rwa [Section.stop, hafter]
    · obtain ⟨depth, title', hnext, -⟩ := h.ends next (by rw [hafter]; rfl)
      have hfree' := Fence.covers_iff.not.mp (hnext.not_covered hf)
      have hstop : sec.stop t = next.start := by rw [Section.stop, hafter]; rfl
      omega
  · have := h.stop_le_after hmem
    omega

/-- **A fence of a section is kept in full.** -/
theorem covered_kept (hkept : Trims sec.inner kept) {f : Fence} (hf : f ∈ t.fences) {l m : Line}
    (hl : l ∈ sec.inner) (hcovers : f.Covers l) (hm : m ∈ t.lines) (hcovers' : f.Covers m) :
    m ∈ kept := by
  obtain ⟨hstart, hstop⟩ := Fence.covers_iff.mp hcovers
  have hbounds := h.inner_bounds hl
  have := sec.heading.start_le_stop
  have := l.start_le_stop
  obtain ⟨hfront, hback⟩ : sec.heading.stop < f.span.start ∧ f.span.stop ≤ sec.stop t := by
    rcases h.fence_cases hf with hcase | hcase | hcase
    · omega
    · exact hcase
    · omega
  have hinner : ∀ {m : Line}, m ∈ t.lines → f.Covers m → m ∈ sec.inner := fun hm hcovers => by
    obtain ⟨hstart, hstop⟩ := Fence.covers_iff.mp hcovers
    exact h.mem_inner hm (by omega) (by omega)
  -- its first and its last line are not blank, so they are kept, and what is between them too
  obtain ⟨before, opening, inner, closing, after, hlines, -, hmade⟩ :=
    exists_madeOf_of_mem_fencesFrom hf
  have hlt := (Text.stands_of_mem_fences hf).lt
  have hspan := hmade.span
  have hclosing : closing.start < closing.stop := by
    obtain ⟨f', hf'⟩ := Option.isSome_iff_exists.mp hmade.closes
    exact Line.start_lt_stop (FenceLine.read?_eq_some_iff.mp hf')
  have hends : opening ∈ kept ∧ closing ∈ kept := by
    have hpairs := hlines ▸ t.laid_lines.pairwise
    have hapart := (List.pairwise_cons.mp (List.pairwise_append.mp hpairs).2.1).1 closing (by simp)
    have := opening.start_le_stop
    have hcovered : f.Covers opening ∧ f.Covers closing := by
      rw [Fence.covers_iff, Fence.covers_iff, hspan]
      simp only
      omega
    exact ⟨hkept.mem_of_not_blank (hinner (by rw [hlines]; simp) hcovered.1)
        (FenceLine.not_blank hmade.opens),
      hkept.mem_of_not_blank (hinner (by rw [hlines]; simp) hcovered.2)
        (FenceLine.not_blank hmade.closes)⟩
  obtain ⟨front, back, hsplit, -, -⟩ := hkept.split
  have hpairs : (front ++ (kept ++ back)).Pairwise fun a b => a.stop < b.start := by
    rw [← hsplit]
    exact (List.pairwise_append.mp
      (List.pairwise_cons.mp (List.pairwise_append.mp h.pairwise).2.1).2).1
  have hmem := hinner hm hcovers'
  obtain ⟨hstart', hstop'⟩ := Fence.covers_iff.mp hcovers'
  rw [hspan] at hstart' hstop'
  have := m.start_le_stop
  rw [hsplit, List.mem_append, List.mem_append] at hmem
  rcases hmem with hmem | hmem | hmem
  · have := (List.pairwise_append.mp hpairs).2.2 m hmem opening (List.mem_append_left _ hends.1)
    simp only at hstart'
    omega
  · exact hmem
  · have hbehind := (List.pairwise_append.mp (List.pairwise_append.mp hpairs).2.1).2.2
    have := hbehind closing hends.2 m hmem
    simp only at hstop'
    omega

/-- **A subsection is in the section in full.** -/
theorem subsection_infix {sub : Section} (hsub : sub.Of t) (hmem : sub.heading ∈ sec.inner) :
    sub.heading :: sub.inner <:+: sec.inner := by
  obtain ⟨title, hheading⟩ := hsub.heading
  have hdepth := h.deeper _ hmem _ _ hheading
  obtain ⟨front, rest, hinner⟩ := List.append_of_mem hmem
  -- both ways to cut the text at the heading of the subsection are the same
  have hlines := h.lines.symm.trans hsub.lines
  rw [hinner] at hlines
  have hfront : ∀ {front behind : List Line}, (front ++ sub.heading :: behind).Pairwise
      (fun a b => a.stop < b.start) → ∀ l ∈ front, l ≠ sub.heading := by
    rintro front behind hpairs l hl rfl
    have := (List.pairwise_append.mp hpairs).2.2 _ hl _ (List.mem_cons_self ..)
    have := sub.heading.start_le_stop
    omega
  have hsplit : sec.before ++ sec.heading :: (front ++ sub.heading :: rest ++ sec.after) =
      (sec.before ++ sec.heading :: front) ++ sub.heading :: (rest ++ sec.after) := by simp
  have hpairs := h.pairwise
  rw [hinner, hsplit] at hpairs
  rw [hsplit] at hlines
  obtain ⟨-, -, hsame⟩ := eq_of_first (P := (· = sub.heading)) (hfront hpairs)
    (hfront hsub.pairwise) rfl rfl hlines
  rcases List.append_eq_append_iff.mp hsame with ⟨behind, hsub', hafter⟩ | ⟨behind, hrest, -⟩
  · cases behind with
    | nil =>
      rw [List.append_nil] at hsub'
      exact ⟨front, [], by rw [hinner, hsub']; simp⟩
    | cons next behind =>
      -- the next heading that is not deeper than the section's would be in the subsection
      obtain ⟨depth, title', hnext, hle⟩ := h.ends next (by rw [hafter]; rfl)
      have := hsub.deeper next (by rw [hsub']; simp) _ _ hnext
      omega
  · exact ⟨front, behind, by rw [hinner, hrest]; simp⟩

end Section.Of

/-- There is no section just when no heading has the title. -/
theorem sectionUnder?_eq_none_iff : t.sectionUnder? wanted = none ↔
    ∀ l depth title, t.HasHeading l depth title → headingKey title ≠ headingKey wanted := by
  refine ⟨fun h l depth title hheading hkey => ?_, sectionUnder?_eq_none⟩
  obtain ⟨sec, hsec⟩ := exists_section_under hheading hkey
  rw [hsec.sectionUnder?_eq] at h
  cases h

/-- What is given is the section, less the blank lines at its ends. -/
theorem sectionUnder?_eq_some_iff {s : Text} : t.sectionUnder? wanted = some s ↔
    ∃ (sec : Section) (kept : List Line), sec.Under t wanted ∧ Trims sec.inner kept ∧
      s = Text.unlines (kept.map (·.content)) := by
  constructor
  · intro h
    obtain ⟨l, depth, title, hheading, hkey⟩ : ∃ l depth title, t.HasHeading l depth title ∧
        headingKey title = headingKey wanted := by
      by_contra hnone
      rw [sectionUnder?_eq_none fun l depth title hheading hkey =>
        hnone ⟨l, depth, title, hheading, hkey⟩] at h
      cases h
    obtain ⟨sec, hsec⟩ := exists_section_under hheading hkey
    obtain ⟨kept, hkept⟩ := exists_trims sec.inner
    rw [hsec.sectionUnder?_eq, hkept.withoutOuterBlanks_eq] at h
    exact ⟨sec, kept, hsec, hkept, (Option.some.inj h).symm⟩
  · rintro ⟨sec, kept, hsec, hkept, rfl⟩
    rw [hsec.sectionUnder?_eq, hkept.withoutOuterBlanks_eq]

/-- **The section under a heading.** There is none just when no heading outside of fences has the
title; else it is that of the first such heading: the lines up to the next heading of its depth or a
smaller one, joined by line feeds and less the blank ones at both ends. Every subsection and every
fence that meets it is in it in full. -/
theorem section_under_heading (t wanted : Text) :
    (t.sectionUnder? wanted = none ↔
      ∀ l depth title, t.HasHeading l depth title → headingKey title ≠ headingKey wanted) ∧
    ∀ s, t.sectionUnder? wanted = some s ↔
      ∃ (sec : Section) (kept : List Line), sec.Under t wanted ∧ Trims sec.inner kept ∧
        s = Text.unlines (kept.map (·.content)) ∧
        (∀ sub : Section, sub.Of t → sub.heading ∈ sec.inner →
          sub.heading :: sub.inner <:+: sec.inner) ∧
        ∀ f ∈ t.fences, ∀ l ∈ sec.inner, f.Covers l → ∀ m ∈ t.lines, f.Covers m → m ∈ kept := by
  refine ⟨sectionUnder?_eq_none_iff, fun s => ?_⟩
  rw [sectionUnder?_eq_some_iff]
  constructor
  · rintro ⟨sec, kept, hsec, hkept, hs⟩
    exact ⟨sec, kept, hsec, hkept, hs, fun sub hsub hmem => hsec.subsection_infix hsub hmem,
      fun f hf l hl hcovers m hm hcovers' => hsec.covered_kept hkept hf hl hcovers hm hcovers'⟩
  · rintro ⟨sec, kept, hsec, hkept, hs, -⟩
    exact ⟨sec, kept, hsec, hkept, hs⟩

/-- A fence that looks like a heading, and a subsection, do not end the section. -/
example : Text.sectionUnder?
    "# A ##\n\n## B\nx\n\x60\x60\x60\n# C\n\x60\x60\x60\n\n# D".toList "a".toList =
      some "## B\nx\n\x60\x60\x60\n# C\n\x60\x60\x60".toList := by
  decide +kernel

end NotePress
