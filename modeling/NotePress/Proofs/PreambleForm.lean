import Mathlib.Data.List.Chain
import Mathlib.Data.List.Infix
import NotePress.Proofs.Lines
import NotePress.Proofs.PreambleLines

/-!
# The form of a preamble

The lines that a preamble is made of are clean: nothing in them breaks a line, and no blank stands
at their end. Collapsing keeps that, and it keeps blank lines away from the start and from each
other (`Preamble.collapse_tidy`); at the end only an empty line has to go. Clean lines are the lines
of their text in every sense (`Text.countedLines_endLines`, `Preamble.lines_endLines`), so
`preamble_tidy` can say of the text what holds of them.
-/

namespace NotePress

/-- Carriage returns of a text stand before line feeds. -/
def Text.ReturnsBeforeFeeds (t : Text) : Prop :=
  ∀ front back, t = front ++ '\r' :: back → back.head? = some '\n'

theorem Text.returnsBeforeFeeds_iff {t : Text} : t.ReturnsBeforeFeeds ↔
    ∀ tail ∈ t.tails, tail.head? = some '\r' → tail.tail.head? = some '\n' := by
  constructor
  · intro h tail htail hhead
    obtain ⟨front, rfl⟩ := (List.mem_tails _ _).mp htail
    obtain ⟨back, rfl⟩ := List.head?_eq_some_iff.mp hhead
    exact h front back rfl
  · rintro h front back rfl
    exact h _ ((List.mem_tails _ _).mpr (List.suffix_append front _)) rfl

instance : DecidablePred Text.ReturnsBeforeFeeds :=
  fun _ => decidable_of_iff' _ Text.returnsBeforeFeeds_iff

/-- **A tidy text**: empty or ended by one line feed, without blank lines at its ends and next to
each other, and without blanks at the end of a line. -/
structure Text.IsTidy (t : Text) : Prop where
  ended : t = [] ∨ ∃ body, t = body ++ ['\n'] ∧ body.getLast? ≠ some '\n'
  first : ∀ l ∈ t.countedLines.head?, l.allBlank = false
  last : ∀ l ∈ t.countedLines.getLast?, l.allBlank = false
  apart : t.countedLines.IsChain fun l m => l.allBlank = false ∨ m.allBlank = false
  trimmed : ∀ l ∈ t.countedLines, l.trimEnd = l

/-- A part without line feeds has no break in it, if a carriage return at its end would stand before
something else: behind one further in front there would be a line feed in the part. -/
theorem Text.ReturnsBeforeFeeds.unbroken {t content rest : Text} {pos : Nat}
    (ht : t.ReturnsBeforeFeeds) (hdrop : t.drop pos = content ++ rest) (hfeed : '\n' ∉ content)
    (hend : content.getLast? = some '\r' → rest.head? ≠ some '\n') : Text.Unbroken content := by
  have hreturn : '\r' ∉ content := by
    intro hmem
    obtain ⟨front, back, rfl⟩ := List.append_of_mem hmem
    have hnext := ht (t.take pos ++ front) (back ++ rest) (by
      rw [List.append_assoc, ← List.cons_append, ← List.append_assoc front, ← hdrop,
        List.take_append_drop])
    rcases back with _ | ⟨d, back⟩
    · exact hend List.getLast?_concat hnext
    · cases hnext
      exact hfeed (by simp)
  intro c hc
  have hne : c ≠ '\n' ∧ c ≠ '\r' := ⟨fun h => hfeed (h ▸ hc), fun h => hreturn (h ▸ hc)⟩
  simpa [Text.isBreakChar] using hne

/-- No line of a text whose carriage returns stand before line feeds has a break in it. -/
theorem Text.LinedFrom.unbroken {t : Text} {pos : Nat} {lines : List Line}
    (h : t.LinedFrom pos lines) (ht : t.ReturnsBeforeFeeds) :
    ∀ l ∈ lines, Text.Unbroken l.content := by
  induction h with
  | done => simp
  | @last pos content h hne hfree =>
    rw [← List.append_nil content] at h
    exact List.forall_mem_singleton.mpr (ht.unbroken h hfree (by simp))
  | line h hfree hbreak _ ih =>
    refine List.forall_mem_cons.mpr ⟨ht.unbroken h hfree fun hlast => ?_, ih⟩
    cases hbreak with
    | lineFeed hnot => exact absurd hlast hnot
    | carriageReturn => simp

namespace Preamble

open Text

variable {l : Text} {lines : List Text}

/-! ### Clean lines -/

/-- A line without a break inside and without blanks at its end. -/
structure IsClean (l : Text) : Prop where
  unbroken : Unbroken l
  trimmed : l.trimEnd = l

theorem isClean_nil : IsClean [] := ⟨by decide, rfl⟩

theorem IsClean.eq_nil (h : IsClean l) (hblank : l.allBlank = true) : l = [] := by
  have htrim := dropTail_append_of_all (t := []) (List.all_eq_true.mp hblank)
  rw [← h.trimmed]
  exact htrim

theorem dropItemMark_subset (line : Text) : dropItemMark line ⊆ line := by
  have hstart : line.trimStart <:+ line := List.dropWhile_suffix _
  unfold dropItemMark
  split
  · exact List.nil_subset _
  · rename_i item hitem
    rw [hitem] at hstart
    refine List.append_subset.mpr ⟨(List.takeWhile_prefix _).subset, ?_⟩
    have hrest : item <:+ '-' :: ' ' :: item := (List.suffix_cons ..).trans (List.suffix_cons ..)
    exact (hrest.trans hstart).subset
  · exact List.Subset.refl _

/-- A line that is moved to the margin is clean if nothing breaks it. -/
theorem isClean_dedentLine {line : Text} (indent : Text) (hfree : Unbroken line) :
    IsClean (dedentLine indent line) := by
  unfold dedentLine
  split
  · exact isClean_nil
  · refine ⟨fun c hc => hfree c ?_, dropTail_eq_self getLast?_dropTail⟩
    have hc := dropTail_subset _ _ hc
    cases hrest : dropOpening? indent line with
    | none =>
      rw [hrest] at hc
      exact hc
    | some rest =>
      rw [hrest] at hc
      rw [← List.isPrefixOf?_eq_some_iff_append_eq.mp hrest]
      exact List.mem_append_right _ hc

theorem isClean_headerLines {header : Text} (hreturns : header.ReturnsBeforeFeeds) :
    ∀ l ∈ headerLines header, IsClean l := by
  unfold headerLines dedent
  rw [List.forall_mem_map, List.forall_mem_map]
  intro content hcontent
  obtain ⟨line, hline, rfl⟩ := List.mem_map.mp (List.mem_filter.mp hcontent).1
  have hfree := (linedFrom_lines header).unbroken hreturns line hline
  exact isClean_dedentLine _ fun c hc => hfree c (dropItemMark_subset _ hc)

theorem isClean_labelLines {labels : Labels}
    (htitles : ∀ title ∈ labels.titles, Unbroken title.trim) :
    ∀ l ∈ labelLines labels, IsClean l := by
  rw [labelLines_eq, List.forall_mem_filterMap]
  intro p hp l hl
  obtain ⟨hlead, htitle⟩ := List.of_mem_zip hp
  have hfree := htitles _ htitle
  unfold captionLine unlessBlank? at hl
  cases htrim : p.2.trim with
  | nil =>
    rw [htrim] at hl
    cases hl
  | cons c body =>
    rw [htrim] at hl hfree
    cases hl
    refine ⟨?_, dropTail_eq_self ?_⟩
    · have hend : Unbroken ['\x7d'] := by decide
      exact unbroken_append.mpr
        ⟨(captionLeads_command _ hlead).2, unbroken_append.mpr ⟨hfree, hend⟩⟩
    · show ∀ d ∈ (p.1 ++ (c :: body ++ ['\x7d'])).getLast?, isBlank d = false
      rw [← List.append_assoc, List.getLast?_concat]
      rintro d ⟨⟩
      decide

/-! ### Collapsing -/

/-- **Lines of a preamble**: clean, none blank at the start, and none next to each other. -/
structure AreTidy (lines : List Text) : Prop where
  clean : ∀ l ∈ lines, IsClean l
  apart : lines.IsChain fun l m => l.allBlank = false ∨ m.allBlank = false

theorem head?_collapse : ∀ l ∈ (collapse true lines).head?, l.allBlank = false := by
  induction lines with
  | nil => simp [collapse]
  | cons l rest ih =>
    unfold collapse
    split
    · rename_i hblank
      simpa using hblank
    · rw [if_pos rfl]
      exact ih

theorem collapse_tidy {afterBlank : Bool} (h : ∀ l ∈ lines, IsClean l) :
    AreTidy (collapse afterBlank lines) := by
  induction lines generalizing afterBlank with
  | nil => exact ⟨by simp [collapse], by simp [collapse]⟩
  | cons l rest ih =>
    obtain ⟨hl, hrest⟩ := List.forall_mem_cons.mp h
    unfold collapse
    split
    · rename_i hblank
      have hblank : l.allBlank = false := by simpa using hblank
      refine ⟨List.forall_mem_cons.mpr ⟨hl, (ih hrest).clean⟩, ?_⟩
      exact List.isChain_cons.mpr ⟨fun m _ => .inl hblank, (ih hrest).apart⟩
    · split
      · exact ih hrest
      · refine ⟨List.forall_mem_cons.mpr ⟨isClean_nil, (ih hrest).clean⟩, ?_⟩
        exact List.isChain_cons.mpr ⟨fun m hm => .inr (head?_collapse m hm), (ih hrest).apart⟩

theorem AreTidy.dropEmptyEnd (h : AreTidy lines) : AreTidy (dropEmptyEnd lines) := by
  unfold Preamble.dropEmptyEnd
  split
  · exact ⟨fun l hl => h.clean l (List.dropLast_subset _ hl), h.apart.dropLast⟩
  · exact h

theorem head?_dropEmptyEnd (h : ∀ l ∈ lines.head?, l.allBlank = false) :
    ∀ l ∈ (dropEmptyEnd lines).head?, l.allBlank = false := by
  unfold dropEmptyEnd
  split
  · intro l hl
    rw [List.head?_dropLast] at hl
    split at hl
    · exact h l hl
    · cases hl
  · exact h

theorem AreTidy.getLast?_dropEmptyEnd (h : AreTidy lines) :
    ∀ l ∈ (Preamble.dropEmptyEnd lines).getLast?, l.allBlank = false := by
  unfold Preamble.dropEmptyEnd
  split
  · rename_i hlast
    obtain ⟨front, rfl⟩ := List.getLast?_eq_some_iff.mp hlast
    intro l hl
    rw [List.dropLast_concat] at hl
    obtain ⟨-, -, hlink⟩ := List.isChain_append.mp h.apart
    exact (hlink l hl [] rfl).resolve_right (by decide)
  · rename_i hlast
    intro l hl
    by_contra hblank
    have hnil := (h.clean l (List.mem_of_getLast? hl)).eq_nil (by simpa using hblank)
    exact hlast (hnil ▸ hl)

/-! ### The text of clean lines -/

/-- The lines between line feeds are those lines too. -/
theorem lines_endLines (h : ∀ l ∈ lines, IsClean l) :
    (endLines lines).lines.map (·.content) = lines := by
  induction lines with
  | nil => rfl
  | cons l rest ih =>
    obtain ⟨hl, hrest⟩ := List.forall_mem_cons.mp h
    obtain ⟨hreturn, hfeed⟩ := hl.unbroken.not_mem
    rw [endLines_cons, contents_line hfeed fun hlast => hreturn (List.mem_of_getLast? hlast),
      ih hrest]

theorem count_endLines (h : ∀ l ∈ lines, IsClean l) :
    (endLines lines).count '\n' = lines.length := by
  induction lines with
  | nil => rfl
  | cons l rest ih =>
    obtain ⟨hl, hrest⟩ := List.forall_mem_cons.mp h
    have hfeed : l.count '\n' = 0 := List.count_eq_zero.mpr hl.unbroken.not_mem.2
    rw [endLines_cons, List.count_append, List.count_cons_self, ih hrest, hfeed, List.length_cons]
    omega

/-- Lines that end with one that is not blank are ended by one line feed. -/
theorem ended_endLines (h : ∀ l ∈ lines, IsClean l)
    (hlast : ∀ l ∈ lines.getLast?, l.allBlank = false) :
    endLines lines = [] ∨
      ∃ body, endLines lines = body ++ ['\n'] ∧ body.getLast? ≠ some '\n' := by
  rcases List.eq_nil_or_concat' lines with rfl | ⟨front, l, rfl⟩
  · exact .inl rfl
  · have hblank := hlast l List.getLast?_concat
    obtain ⟨body, c, rfl⟩ := (List.eq_nil_or_concat' l).resolve_left (by rintro rfl; cases hblank)
    refine .inr ⟨endLines front ++ (body ++ [c]), endLines_concat front _, ?_⟩
    rw [← List.append_assoc, List.getLast?_concat]
    rintro ⟨⟩
    have hfree := (h (body ++ ['\n']) (by simp)).unbroken '\n' (by simp)
    cases hfree

/-! ### The preamble -/

/-- **The form of a preamble.** If the carriage returns of the user's header stand before line feeds
and each title is one line, the preamble is a tidy text, and its number of lines is that of the
lines which are counted, of the lines between line feeds, and of the line feeds. -/
theorem preamble_tidy (header : Text) (labels : Labels) (hreturns : header.ReturnsBeforeFeeds)
    (htitles : ∀ title ∈ labels.titles, Unbroken title.trim) :
    (compose header labels).text.IsTidy ∧
      (compose header labels).text.lines.map (·.content) =
        (compose header labels).text.countedLines ∧
      (compose header labels).lineCount = (compose header labels).text.countedLines.length ∧
      (compose header labels).lineCount = (compose header labels).text.count '\n' := by
  have hclean := List.forall_mem_append.mpr
    ⟨isClean_headerLines hreturns, isClean_labelLines htitles⟩
  have hcollapsed : AreTidy (collapse true (headerLines header ++ labelLines labels)) :=
    collapse_tidy hclean
  have htidy : AreTidy (composedLines header labels) := hcollapsed.dropEmptyEnd
  have hfirst : ∀ l ∈ (composedLines header labels).head?, l.allBlank = false :=
    head?_dropEmptyEnd head?_collapse
  have hlast : ∀ l ∈ (composedLines header labels).getLast?, l.allBlank = false :=
    hcollapsed.getLast?_dropEmptyEnd
  have hcounted := countedLines_endLines fun l hl => (htidy.clean l hl).unbroken
  have hlineCount : (compose header labels).lineCount = (composedLines header labels).length := by
    rw [← congrArg List.length hcounted]
    exact (length_countedLines _).symm
  rw [compose_text, hlineCount, hcounted, lines_endLines htidy.clean, count_endLines htidy.clean]
  refine ⟨⟨ended_endLines htidy.clean hlast, ?_, ?_, ?_, ?_⟩, rfl, rfl, rfl⟩
  · rwa [hcounted]
  · rwa [hcounted]
  · rw [hcounted]
    exact htidy.apart
  · rw [hcounted]
    exact fun l hl => (htidy.clean l hl).trimmed

/-- A block that was pasted whole: markers, a comment, items, blank lines, and breaks of both
kinds. -/
def pastedHeader : Text :=
  endLines <| ["---\r", "header-includes: |\r", "", "  # packages",
    "  - \\usepackage\x7ba\x7d  \r", "", " ", "  - \\usepackage\x7bb\x7d", "",
    "..."].map String.toList

/-- A name for tables and no other one. -/
def tableLabels : Labels := ⟨[], " Tab. ".toList, [], [], [], [], [], []⟩

theorem preamble_tidy_pasted :
    pastedHeader.ReturnsBeforeFeeds ∧
      (compose pastedHeader tableLabels).text =
        endLines (["\\usepackage\x7ba\x7d", "", "\\usepackage\x7bb\x7d", "",
          "\\renewcommand\x7b\\tablename\x7d\x7bTab.\x7d"].map String.toList) ∧
      (compose pastedHeader tableLabels).text.IsTidy ∧
      (compose pastedHeader tableLabels).lineCount = 5 := by
  have hreturns : pastedHeader.ReturnsBeforeFeeds := by decide +kernel
  obtain ⟨htidy, -, -, hcount⟩ := preamble_tidy pastedHeader tableLabels hreturns (by decide)
  exact ⟨hreturns, by decide +kernel, htidy, hcount.trans (by decide +kernel)⟩

end Preamble

end NotePress
