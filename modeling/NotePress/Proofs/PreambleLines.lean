import NotePress.Proofs.CountedLines
import NotePress.Proofs.LeftMargin

/-!
# Plain lines of a preamble

What is put ahead of a document should be TeX and nothing else: no counted line of it is scaffolding
(`Preamble.IsPlainTeX`). A line is scaffolding by what is left when it is trimmed, so moving lines
to the margin and collapsing blank ones brings no scaffolding in. What can bring it in is what is
done to a line after it was kept: an item's mark is taken away, carriage returns inside it break it,
and so do line breaks inside a title. `plain_preamble_iff` says that there is no other way.
-/

namespace NotePress

/-- The titles that a preamble can give. -/
def Labels.titles (labels : Labels) : List Text :=
  [labels.figureTitle, labels.tableTitle, labels.listingTitle, labels.equationTitle]

namespace Preamble

open Text

variable {t a b line lead : Text} {lines : List Text} {c : Char}

/-! ### Scaffolding -/

theorem isScaffolding_congr (h : a.trim = b.trim) : isScaffolding a = isScaffolding b := by
  unfold isScaffolding
  rw [h]

/-- A command is no scaffolding. -/
theorem isScaffolding_command (rest : Text) : isScaffolding ('\\' :: rest) = false := by
  obtain ⟨front, back, hsplit, hfront, hback⟩ := exists_trim ('\\' :: rest)
  have hvisible : isBlank '\\' = false := by decide
  have hhead : (trim ('\\' :: rest)).head? = some '\\' := by
    cases front with
    | cons c front =>
      obtain rfl := (List.cons.inj hsplit).1
      rw [hfront _ (List.mem_cons_self ..)] at hvisible
      cases hvisible
    | nil =>
      cases htrim : trim ('\\' :: rest) with
      | nil =>
        rw [htrim] at hsplit
        obtain rfl : back = '\\' :: rest := hsplit.symm
        rw [hback _ (List.mem_cons_self ..)] at hvisible
        cases hvisible
      | cons c body =>
        rw [htrim] at hsplit
        exact congrArg some (List.cons.inj hsplit).1.symm
  obtain ⟨body, hbody⟩ := List.head?_eq_some_iff.mp hhead
  unfold isScaffolding isHeaderName dropOpening?
  rw [hbody]
  simp [List.isPrefixOf?]

/-! ### Plain texts -/

/-- **A text is plain TeX**: none of its counted lines is scaffolding. -/
def IsPlainTeX (t : Text) : Prop := ∀ line ∈ t.countedLines, isScaffolding line = false

theorem isPlainTeX_iff :
    IsPlainTeX t ↔ ∀ piece ∈ t.splitOnP isBreakChar, isScaffolding piece = false :=
  forall_countedLines_iff (by decide) t

theorem isPlainTeX_nil : IsPlainTeX [] := by
  intro line hline
  cases hline

/-- A break separates what is in front of it from what is behind it. -/
theorem isPlainTeX_append (hc : isBreakChar c = true) :
    IsPlainTeX (a ++ c :: b) ↔ IsPlainTeX a ∧ IsPlainTeX b := by
  rw [isPlainTeX_iff, isPlainTeX_iff, isPlainTeX_iff, List.splitOnP_append_cons a b hc]
  exact List.forall_mem_append

theorem isPlainTeX_line {brk rest : Text} (hbrk : CountedBreak rest brk) :
    IsPlainTeX (a ++ (brk ++ b)) ↔ IsPlainTeX a ∧ IsPlainTeX b := by
  cases hbrk with
  | lineFeed => exact isPlainTeX_append rfl
  | pair =>
    have hempty : IsPlainTeX ('\n' :: b) ↔ IsPlainTeX [] ∧ IsPlainTeX b :=
      isPlainTeX_append (a := []) rfl
    rw [List.cons_append, List.singleton_append, isPlainTeX_append rfl, hempty]
    simp [isPlainTeX_nil]
  | carriageReturn => exact isPlainTeX_append rfl

/-- Lines that are each ended are plain when each of them is. -/
theorem isPlainTeX_endLines : IsPlainTeX (endLines lines) ↔ ∀ l ∈ lines, IsPlainTeX l := by
  induction lines with
  | nil => simp [isPlainTeX_nil]
  | cons l rest ih =>
    rw [endLines_cons, isPlainTeX_append (by rfl), ih]
    exact List.forall_mem_cons.symm

theorem isPlainTeX_of_unbroken (ht : Unbroken t) :
    IsPlainTeX t ↔ isScaffolding t = false := by
  rw [isPlainTeX_iff, List.splitOnP_eq_singleton ht]
  exact List.forall_mem_singleton

theorem isPlainTeX_cons_blank (hc : isBlank c = true) : IsPlainTeX (c :: t) ↔ IsPlainTeX t := by
  by_cases hbreak : isBreakChar c = true
  · have h := isPlainTeX_append (a := []) (b := t) hbreak
    simpa [isPlainTeX_nil] using h
  · rw [isPlainTeX_iff, isPlainTeX_iff, List.splitOnP_cons_eq_if_modifyHead, if_neg hbreak]
    obtain ⟨first, rest, hpieces⟩ := List.exists_cons_of_ne_nil (List.splitOnP_ne_nil isBreakChar t)
    have hfirst : isScaffolding (c :: first) = isScaffolding first :=
      isScaffolding_congr (trim_append_left (List.forall_mem_singleton.mpr hc) first)
    rw [hpieces, List.modifyHead_cons, List.forall_mem_cons, List.forall_mem_cons, hfirst]

theorem isPlainTeX_concat_blank (hc : isBlank c = true) : IsPlainTeX (t ++ [c]) ↔ IsPlainTeX t := by
  by_cases hbreak : isBreakChar c = true
  · rw [isPlainTeX_append hbreak]
    simp [isPlainTeX_nil]
  · have hbreak : isBreakChar c = false := by simpa using hbreak
    induction t using countedLines_induct with
    | last l hl =>
      have hfree : Unbroken (l ++ [c]) :=
        unbroken_append.mpr ⟨hl, List.forall_mem_singleton.mpr hbreak⟩
      rw [isPlainTeX_of_unbroken hfree, isPlainTeX_of_unbroken hl,
        isScaffolding_congr (trim_append_right (List.forall_mem_singleton.mpr hc) l)]
    | line l brk rest hl hbrk ih =>
      rw [List.append_assoc, List.append_assoc, isPlainTeX_line hbrk, isPlainTeX_line hbrk]
      exact and_congr_right fun _ => ih

/-- Blanks around a text do not matter. -/
theorem isPlainTeX_trim : IsPlainTeX t.trim ↔ IsPlainTeX t := by
  obtain ⟨front, back, hsplit, hfront, hback⟩ := exists_trim t
  have hdrop : ∀ {u : Text}, IsPlainTeX (front ++ u) ↔ IsPlainTeX u := by
    intro u
    clear hsplit
    induction front with
    | nil => rfl
    | cons c front ih =>
      rw [List.cons_append, isPlainTeX_cons_blank (hfront c (List.mem_cons_self ..))]
      exact ih fun d hd => hfront d (List.mem_cons_of_mem _ hd)
  have hend : IsPlainTeX (t.trim ++ back) ↔ IsPlainTeX t.trim := by
    clear hsplit
    induction back using List.reverseRecOn with
    | nil => rw [List.append_nil]
    | append_singleton back c ih =>
      rw [← List.append_assoc, isPlainTeX_concat_blank (hback c (by simp))]
      exact ih fun d hd => hback d (List.mem_append_left _ hd)
  rw [← hend, ← hdrop, ← hsplit]

theorem isPlainTeX_congr (h : a.trim = b.trim) : IsPlainTeX a ↔ IsPlainTeX b := by
  rw [← isPlainTeX_trim, h, isPlainTeX_trim]

theorem isPlainTeX_of_allBlank (h : line.allBlank = true) : IsPlainTeX line := by
  rw [← isPlainTeX_trim, trim_eq_nil_iff.mpr h]
  exact isPlainTeX_nil

/-! ### The user's header -/

/-- A user's header is plain when its lines are that are kept, without their marks. -/
theorem isPlainTeX_headerLines (header : Text) :
    (∀ l ∈ headerLines header, IsPlainTeX l) ↔
      ∀ line ∈ header.lines, isScaffolding line.content = false →
        IsPlainTeX (dropItemMark line.content) := by
  have hdedent : ∀ lines : List Text, (∀ l ∈ dedent lines, IsPlainTeX l) ↔
      ∀ l ∈ lines, IsPlainTeX l := by
    intro lines
    unfold dedent
    rw [List.forall_mem_map]
    refine forall₂_congr fun l _ => isPlainTeX_congr (trim_dedentLine ?_ l)
    exact (isMargin_sharedIndentation lines).blank
  unfold headerLines
  rw [hdedent, List.forall_mem_map]
  simp

/-! ### Caption names -/

/-- A line that gives a caption name: a command, the title, and a brace. -/
def captionLine (lead title : Text) : Option Text :=
  title.unlessBlank?.map fun title => lead ++ (title ++ ['\x7d'])

/-- What stands in front of each title. -/
def captionLeads : List Text :=
  ["\\renewcommand\x7b\\figurename\x7d\x7b", "\\renewcommand\x7b\\tablename\x7d\x7b",
    "\\renewcommand\x7b\\lstlistingname\x7d\x7b",
    "\\providecommand\x7b\\equationname\x7d\x7b\x7d\\renewcommand\x7b\\equationname\x7d\x7b"].map
    String.toList

theorem captionLeads_command : ∀ lead ∈ captionLeads, lead.head? = some '\\' ∧
    Unbroken lead := by decide

/-- The lines that give caption names have one form. -/
theorem labelLines_eq (labels : Labels) :
    labelLines labels =
      (captionLeads.zip labels.titles).filterMap fun p => captionLine p.1 p.2 := by
  have hform : ∀ lead title : Text,
      (title.unlessBlank?.map fun title => lead ++ title ++ "\x7d".toList) =
        captionLine lead title := by
    intro lead title
    unfold captionLine
    congr 1
    funext title
    exact List.append_assoc ..
  unfold labelLines renameLine equationLine
  rw [hform, hform, hform, hform]
  rfl

/-- A caption line is plain when the title breaks no line in front of scaffolding. -/
theorem isPlainTeX_captionLine (hlead : lead ∈ captionLeads) (title : Text) :
    (∀ l ∈ captionLine lead title, IsPlainTeX l) ↔
      ∀ part ∈ (title.trim ++ ['\x7d']).countedLines.tail, isScaffolding part = false := by
  obtain ⟨hhead, hfree⟩ := captionLeads_command lead hlead
  obtain ⟨rest, hrest⟩ := List.head?_eq_some_iff.mp hhead
  unfold captionLine unlessBlank?
  cases htrim : title.trim with
  | nil => simp [countedLines]
  | cons c body =>
    have hne : c :: body ++ ['\x7d'] ≠ [] := by simp
    unfold IsPlainTeX
    simp only [Option.map_some, Option.mem_def, Option.some.injEq, forall_eq']
    rw [countedLines_append hfree hne]
    cases countedLines (c :: body ++ ['\x7d']) with
    | nil => simp
    | cons first others =>
      have hfirst : isScaffolding (lead ++ first) = false := by
        rw [hrest]
        exact isScaffolding_command _
      simp [hfirst]

theorem isPlainTeX_labelLines (labels : Labels) :
    (∀ l ∈ labelLines labels, IsPlainTeX l) ↔ ∀ title ∈ labels.titles,
      ∀ part ∈ (title.trim ++ ['\x7d']).countedLines.tail, isScaffolding part = false := by
  have htitles : (captionLeads.zip labels.titles).map Prod.snd = labels.titles := rfl
  rw [labelLines_eq, List.forall_mem_filterMap, ← htitles, List.forall_mem_map]
  exact forall₂_congr fun p hp => isPlainTeX_captionLine (List.of_mem_zip hp).1 p.2

/-! ### The preamble -/

/-- The lines of a preamble. -/
def composedLines (header : Text) (labels : Labels) : List Text :=
  dropEmptyEnd (collapse true (headerLines header ++ labelLines labels))

theorem compose_text (header : Text) (labels : Labels) :
    (compose header labels).text = endLines (composedLines header labels) :=
  rfl

/-- Blank lines that are collapsed are plain, and the other lines stay. -/
theorem isPlainTeX_collapse {afterBlank : Bool} :
    (∀ l ∈ collapse afterBlank lines, IsPlainTeX l) ↔ ∀ l ∈ lines, IsPlainTeX l := by
  induction lines generalizing afterBlank with
  | nil => rfl
  | cons l rest ih =>
    unfold collapse
    split
    · rw [List.forall_mem_cons, List.forall_mem_cons, ih]
    · rename_i hblank
      have hblank : l.allBlank = true := by simpa using hblank
      have hplain := isPlainTeX_of_allBlank hblank
      split
      · rw [ih]
        simp [hplain]
      · rw [List.forall_mem_cons, ih]
        simp [hplain, isPlainTeX_nil]

theorem isPlainTeX_dropEmptyEnd :
    (∀ l ∈ dropEmptyEnd lines, IsPlainTeX l) ↔ ∀ l ∈ lines, IsPlainTeX l := by
  unfold dropEmptyEnd
  split
  · rename_i hlast
    obtain ⟨front, rfl⟩ := List.getLast?_eq_some_iff.mp hlast
    simp [or_imp, forall_and, isPlainTeX_nil]
  · rfl

/-- **A preamble is plain TeX when what is kept of it stays so.** No counted line of a preamble is a
comment, a document marker or the header's key just when no kept line of the user's header shows one
as its item mark is taken away, or by the carriage returns inside it, and no title does by the lines
that it breaks. -/
theorem plain_preamble_iff (header : Text) (labels : Labels) :
    (compose header labels).lineCount = (compose header labels).text.countedLines.length ∧
      (IsPlainTeX (compose header labels).text ↔
        (∀ line ∈ header.lines, isScaffolding line.content = false →
          IsPlainTeX (dropItemMark line.content)) ∧
        ∀ title ∈ labels.titles, ∀ part ∈ (title.trim ++ ['\x7d']).countedLines.tail,
          isScaffolding part = false) := by
  refine ⟨(length_countedLines _).symm, ?_⟩
  rw [compose_text, isPlainTeX_endLines, composedLines, isPlainTeX_dropEmptyEnd,
    isPlainTeX_collapse, List.forall_mem_append, isPlainTeX_headerLines, isPlainTeX_labelLines]

/-- No titles. -/
def untitled : Labels := ⟨[], [], [], [], [], [], [], []⟩

/-- **An item that holds a comment is kept**, and the comment with it. -/
theorem comment_item_kept :
    compose "- # note".toList untitled = ⟨"# note\n".toList, 1⟩ ∧
      ¬IsPlainTeX (compose "- # note".toList untitled).text := by
  have hcompose : compose "- # note".toList untitled = ⟨"# note\n".toList, 1⟩ := by decide
  refine ⟨hcompose, fun h => ?_⟩
  rw [hcompose] at h
  exact absurd (h "# note".toList (by decide)) (by decide)

end Preamble

end NotePress
