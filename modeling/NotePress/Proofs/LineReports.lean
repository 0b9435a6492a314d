import NotePress.Diagnostic
import NotePress.Proofs.Copying
import NotePress.Proofs.Digits
import NotePress.Proofs.LineLocal
import NotePress.Proofs.LineNumbers
import NotePress.Proofs.Pictures

/-!
# Reported lines

A report that the compiler makes of a line behind the preamble is read back as a diagnostic for that
line of the prepared text, whatever stands on the lines around it (`Diagnostic.parse_report`). That
is the line of the note only if nothing in front of it has become longer or shorter: a piece of the
note that is copied through the expansion and all passes is as many lines further on as what these
put in front of it adds (`reported_line`), and an embed of a note with several lines adds some
(`copied_line_misreported`).
-/

namespace NotePress

/-! ### Reports -/

namespace Diagnostic

/-- A report as the compiler writes it. -/
def reportOf (line : Nat) (message : Text) : Text :=
  "l.".toList ++ Text.ofNat line ++ ' ' :: message

theorem isDecimalDigit_of_isDigit {c : Char} (h : c.isDigit = true) : isDecimalDigit c = true := by
  obtain ⟨hlow, hhigh⟩ := toNat_of_isDigit h
  unfold isDecimalDigit inRanges digitRanges
  rw [List.any_cons]
  simp [hlow, hhigh]

/-- **A report is recognised** up to the end of its line. -/
theorem recogniseReport_reportOf {before : Option Char} {line : Nat} {message back : Text}
    (hbefore : before.any isWordChar = false) (hmessage : ∀ c ∈ message, endsLine c = false)
    (hback : ∀ c ∈ back.head?, endsLine c = true) :
    recogniseReport before (reportOf line message ++ back) = some ((reportOf line message).length,
      ⟨Text.ofNat line, message.dropWhile isSpaceTab⟩) := by
  have hdigits : ∀ c ∈ Text.ofNat line, isDecimalDigit c = true := fun c hc =>
    isDecimalDigit_of_isDigit (Text.isDigit_of_mem_ofNat hc)
  have hblank : ∀ c ∈ (' ' :: (message ++ back)).head?, isDecimalDigit c = false := by
    rintro _ ⟨⟩
    decide
  have htake : (Text.ofNat line ++ ' ' :: (message ++ back)).takeWhile isDecimalDigit =
      Text.ofNat line :=
    (takeWhile_append_of_head hblank).trans (List.takeWhile_eq_self_iff.mpr hdigits)
  have hdrop : (Text.ofNat line ++ ' ' :: (message ++ back)).dropWhile isDecimalDigit =
      ' ' :: (message ++ back) := by
    rw [dropWhile_append_of_head hblank, List.dropWhile_eq_nil_iff.mpr hdigits, List.nil_append]
  have hspace : ∀ c ∈ back.head?, isSpaceTab c = false := by
    intro c hc
    have := hback c hc
    simp only [endsLine, Bool.or_eq_true, decide_eq_true_eq] at this
    rcases this with rfl | rfl <;> rfl
  have hstop : ∀ c ∈ back.head?, (!endsLine c) = false := fun c hc => by rw [hback c hc]; rfl
  have hgap : (' ' :: (message ++ back)).takeWhile isSpaceTab =
      ' ' :: message.takeWhile isSpaceTab := by
    rw [List.takeWhile_cons_of_pos (by rfl), takeWhile_append_of_head hspace]
  have hrest : ((' ' :: (message ++ back)).dropWhile isSpaceTab).takeWhile (fun c => !endsLine c) =
      message.dropWhile isSpaceTab := by
    rw [List.dropWhile_cons_of_pos (by rfl), dropWhile_append_of_head hspace,
      takeWhile_append_of_head hstop, List.takeWhile_eq_self_iff]
    intro c hc
    rw [hmessage c ((List.dropWhile_suffix _).subset hc)]
    rfl
  have hsplit : reportOf line message ++ back =
      'l' :: '.' :: (Text.ofNat line ++ ' ' :: (message ++ back)) := by
    simp [reportOf]
  have hlength : (reportOf line message).length = 2 + (Text.ofNat line).length +
      (' ' :: message.takeWhile isSpaceTab).length + (message.dropWhile isSpaceTab).length := by
    have hparts := congrArg List.length (List.takeWhile_append_dropWhile (p := isSpaceTab)
      (l := message))
    rw [List.length_append] at hparts
    simp only [reportOf, List.length_append, List.length_cons, ← hparts]
    show 2 + _ + _ = _
    omega
  rw [hsplit]
  unfold recogniseReport
  rw [if_neg (by simp [hbefore])]
  simp only [htake, hdrop, hgap, hrest]
  rw [if_neg (by simp [Text.ofNat_ne_nil]), hlength]

theorem isWordChar_of_endsLine {c : Char} (hc : endsLine c = true) : isWordChar c = false := by
  simp only [endsLine, Bool.or_eq_true, decide_eq_true_eq] at hc
  rcases hc with rfl | rfl <;> decide +kernel

/-- Nothing is recognised where a line ends. -/
theorem recogniseReport_break {c : Char} (hc : endsLine c = true) (before : Option Char) (cs : Text) :
    recogniseReport before (c :: cs) = none := by
  unfold recogniseReport
  split
  · rfl
  · split
    · rename_i heq
      cases heq
      cases hc
    · rfl

/-- What is recognised does not depend on what stands behind the line. -/
theorem recogniseReport_append {back : Text} (hback : ∀ c ∈ back.head?, endsLine c = true)
    (before : Option Char) (u : Text) :
    recogniseReport before (u ++ back) = recogniseReport before u := by
  have hstop : ∀ {p : Char → Bool}, p '\n' = false → p '\r' = false →
      ∀ c ∈ back.head?, p c = false := by
    intro p hfeed hreturn c hc
    have hends := hback c hc
    simp only [endsLine, Bool.or_eq_true, decide_eq_true_eq] at hends
    rcases hends with rfl | rfl
    · exact hfeed
    · exact hreturn
  have hdigit := hstop (p := isDecimalDigit) (by decide) (by decide)
  have hgap := hstop (p := isSpaceTab) (by decide) (by decide)
  have hmessage := hstop (p := fun c => !endsLine c) (by decide) (by decide)
  unfold recogniseReport
  split
  · rfl
  · match u, back, hback with
    | [], [], _ => rfl
    | [], c :: cs, hback =>
      by_cases hopen : c = 'l'
      · subst hopen
        cases hback 'l' rfl
      · simp_all
    | [c], [], _ => rfl
    | [c], d :: ds, hback =>
      by_cases hopen : c = 'l' ∧ d = '.'
      · obtain ⟨-, rfl⟩ := hopen
        cases hback '.' rfl
      · simp_all
    | c :: d :: rest, back, _ =>
      by_cases hopen : c = 'l' ∧ d = '.'
      · obtain ⟨rfl, rfl⟩ := hopen
        simp only [List.cons_append]
        rw [takeWhile_append_of_head hdigit, dropWhile_append_of_head hdigit,
          takeWhile_append_of_head hgap, dropWhile_append_of_head hgap,
          takeWhile_append_of_head hmessage]
      · simp_all

/-- No more is recognised than there is. -/
theorem length_le_of_recogniseReport {before : Option Char} {t : Text} {n : Nat} {r : Report}
    (h : recogniseReport before t = some (n, r)) : n ≤ t.length := by
  unfold recogniseReport at h
  split at h
  · cases h
  · split at h
    · rename_i rest
      simp only at h
      split at h
      · cases h
      · cases h
        have hdigits := congrArg List.length (List.takeWhile_append_dropWhile
          (p := isDecimalDigit) (l := rest))
        have hgap := congrArg List.length (List.takeWhile_append_dropWhile
          (p := isSpaceTab) (l := rest.dropWhile isDecimalDigit))
        have hmessage := (List.takeWhile_prefix (fun c => !endsLine c)
          (l := (rest.dropWhile isDecimalDigit).dropWhile isSpaceTab)).length_le
        rw [List.length_append] at hdigits hgap
        simp only [List.length_cons]
        omega
    · cases h

/-- At the end of a line, a walk goes on as at the start of a text. -/
theorem filterMap_scanFrom {before : Option Char} {pos : Nat} {back : Text} {headerLines : Nat}
    (hback : ∀ c ∈ back.head?, endsLine c = true) :
    (Text.scanFrom recogniseReport before 0 pos back).filterMap
        (fun h => ofReport headerLines h.value) = parse back headerLines := by
  cases back with
  | nil => rfl
  | cons c cs =>
    have hnone := fun before => recogniseReport_break (hback c rfl) before cs
    unfold parse Text.scan
    rw [Text.scanFrom, Text.scanFrom, hnone, hnone]
    simp only
    rw [Nat.add_comm pos 1, Text.scanFrom_add, List.filterMap_map]
    rfl

/-- A walk over the end of a line finds what it finds in front of it, and then starts anew. -/
theorem filterMap_scanFrom_append {back : Text} {headerLines : Nat}
    (hback : ∀ c ∈ back.head?, endsLine c = true) (before : Option Char) {skip : Nat} (pos : Nat)
    {u : Text} (hskip : skip ≤ u.length) :
    (Text.scanFrom recogniseReport before skip pos (u ++ back)).filterMap
        (fun h => ofReport headerLines h.value) =
      (Text.scanFrom recogniseReport before skip pos u).filterMap
        (fun h => ofReport headerLines h.value) ++ parse back headerLines := by
  induction u generalizing before skip pos with
  | nil =>
    obtain rfl : skip = 0 := Nat.le_zero.mp hskip
    exact filterMap_scanFrom hback
  | cons c cs ih =>
    rw [List.cons_append]
    cases skip with
    | succ skip =>
      rw [Text.scanFrom, Text.scanFrom]
      exact ih _ _ (Nat.le_of_succ_le_succ hskip)
    | zero =>
      have hsame : recogniseReport before (c :: (cs ++ back)) = recogniseReport before (c :: cs) :=
        recogniseReport_append hback before (c :: cs)
      rw [Text.scanFrom, Text.scanFrom, hsame]
      cases hfound : recogniseReport before (c :: cs) with
      | none => exact ih _ _ (Nat.zero_le _)
      | some found =>
        have hlength := length_le_of_recogniseReport hfound
        rw [List.length_cons] at hlength
        simp only [List.filterMap_cons]
        rw [ih _ _ (by omega)]
        split <;> rfl

/-- **Messages on different lines are read by themselves**, whichever way the lines are ended. -/
theorem parse_break {c : Char} (hc : endsLine c = true) (a b : Text) (headerLines : Nat) :
    parse (a ++ c :: b) headerLines = parse a headerLines ++ parse b headerLines := by
  have hfront : parse (a ++ c :: b) headerLines =
      parse a headerLines ++ parse (c :: b) headerLines :=
    filterMap_scanFrom_append (by rintro _ ⟨⟩; exact hc) none 0 (Nat.zero_le _)
  have hbehind : ∀ pos, Text.scanFrom recogniseReport (some c) 0 pos b =
      Text.scanFrom recogniseReport none 0 pos b := by
    have hstart : ∀ t, recogniseReport (some c) t = recogniseReport none t := fun t => by
      unfold recogniseReport
      rw [Option.any_some, isWordChar_of_endsLine hc]
      rfl
    intro pos
    cases b with
    | nil => rfl
    | cons d ds => rw [Text.scanFrom, Text.scanFrom, hstart]
  rw [hfront]
  congr 1
  unfold parse Text.scan
  rw [Text.scanFrom, recogniseReport_break hc]
  simp only
  rw [hbehind, Text.scanFrom_add, List.filterMap_map]
  rfl

/-- A walk skips what the last hit took. -/
theorem exists_scanFrom_append {α : Type} (recognise : Recogniser α) (before : Option Char)
    (pos : Nat) (u v : Text) :
    ∃ before', Text.scanFrom recognise before u.length pos (u ++ v) =
      Text.scanFrom recognise before' 0 (pos + u.length) v := by
  induction u generalizing before pos with
  | nil => exact ⟨before, rfl⟩
  | cons c cs ih =>
    obtain ⟨before', h⟩ := ih (some c) (pos + 1)
    refine ⟨before', ?_⟩
    rw [List.length_cons, List.cons_append, Text.scanFrom, h]
    congr 1
    omega

theorem ofReport_ofNat (headerLines : Nat) {line : Nat} (hline : 0 < line) (message : Text) :
    ofReport headerLines ⟨Text.ofNat (headerLines + line), message⟩ =
      if headerLines + line < lineBound then some ⟨line, message.trimEnd⟩ else none := by
  unfold ofReport readNatBelow?
  rw [readNat?_ofNat, Option.filter_some]
  by_cases hbound : headerLines + line < lineBound
  · simp [hbound, hline]
  · simp [hbound]

/-- **A report is read back**, as one of a line of what follows on the preamble, whatever stands on
the lines around it. -/
theorem parse_report {front back message : Text} {headerLines line : Nat}
    (hfront : ∀ c ∈ front.getLast?, c = '\n') (hback : ∀ c ∈ back.head?, endsLine c = true)
    (hmessage : ∀ c ∈ message, endsLine c = false) (hline : 0 < line) :
    parse (front ++ (reportOf (headerLines + line) message ++ back)) headerLines =
      parse front headerLines ++
        ((if headerLines + line < lineBound then
          [⟨line, Text.trimEnd (message.dropWhile isSpaceTab)⟩] else []) ++
            parse back headerLines) := by
  have hline : parse (reportOf (headerLines + line) message ++ back) headerLines =
      (if headerLines + line < lineBound then
        [⟨line, Text.trimEnd (message.dropWhile isSpaceTab)⟩] else []) ++ parse back headerLines := by
    have hfound := @recogniseReport_reportOf none (headerLines + line) _ _ rfl
      hmessage hback
    have hsplit : reportOf (headerLines + line) message =
        'l' :: ('.' :: (Text.ofNat (headerLines + line) ++ ' ' :: message)) := rfl
    obtain ⟨before, hwalk⟩ := exists_scanFrom_append recogniseReport (some 'l') 1
      ('.' :: (Text.ofNat (headerLines + line) ++ ' ' :: message)) back
    rw [hsplit, List.cons_append] at hfound ⊢
    unfold parse Text.scan
    rw [Text.scanFrom, hfound]
    simp only [List.length_cons, Nat.add_sub_cancel] at hwalk ⊢
    rw [hwalk, List.filterMap_cons, filterMap_scanFrom hback]
    simp only [ofReport_ofNat headerLines hline]
    split
    · rename_i hnone
      split at hnone
      · cases hnone
      · rename_i hbound
        rw [if_neg hbound]
        rfl
    · rename_i d hsome
      split at hsome
      · rename_i hbound
        cases hsome
        rw [if_pos hbound]
        rfl
      · cases hsome
  rcases List.eq_nil_or_concat front with rfl | ⟨a, c, rfl⟩
  · exact hline
  · obtain rfl : c = '\n' := hfront c (by simp)
    have hempty := parse_break (by decide : endsLine '\n' = true) a [] headerLines
    rw [show parse [] headerLines = [] from rfl, List.append_nil] at hempty
    rw [List.concat_eq_append, hempty, List.append_assoc, List.singleton_append,
      parse_break (by decide), hline]

end Diagnostic

namespace Prepared

section

variable (g : Collection) (c : Cache) (t : Text) (source : DocumentId) (p : Profile)
  (format : ExportFormat)

/-- What the expansion of a note puts in. -/
def insertions : List (Span × Text) := (Resolver.within g none).insertions c t source []

/-- Where a part of the note is in the expanded text. -/
def expandedAt (b : Span) : Span :=
  let start := t.landing (insertions g c t source) b.start
  ⟨start, start + (b.stop - b.start)⟩

/-- The passes that lower the note. -/
def passes : Nat := ((lowering g p format).lower c (expanded g c t source) source).1.passes

/-- Where a part of the note is after some passes. -/
def placeAfter (b : Span) (n : Nat) : Span :=
  (lowering g p format).follow c source (expanded g c t source) (expandedAt g c t source b) n

/-- Where a part of the note is in the prepared text. -/
def placeOf (b : Span) : Nat :=
  (placeAfter g c t source p format b (passes g c t source p format)).start

/-- **A part of the note is copied**: the expansion and all passes leave it as it is. -/
structure Copied (b : Span) : Prop where
  kept : ∀ part ∈ insertions g c t source, part.1.Apart b
  spared : (lowering g p format).Stays c source (expanded g c t source) (expandedAt g c t source b)
    (passes g c t source p format)

/-- How many lines the expansion and the passes add in front of a part of the note. -/
def linesAdded (b : Span) : Int :=
  t.addedBefore (insertions g c t source) b.start +
    ∑ m ∈ Finset.range (passes g c t source p format),
      ((lowering g p format).afterPasses c source (expanded g c t source) m).addedBefore
        ((lowering g p format).parts c source
          ((lowering g p format).afterPasses c source (expanded g c t source) m))
            (placeAfter g c t source p format b m).start

end

variable {g : Collection} {c : Cache} {t : Text} {source : DocumentId} {p : Profile}
  {format : ExportFormat}

/-- **What is copied stands in the prepared text**, on a line further on by what is added. -/
theorem Copied.stands {start : Nat} {piece : Text} (hfin : g.readable.Finite) (hpiece : piece ≠ [])
    (hstands : t.HasAt start piece)
    (hcopied : Copied g c t source p format ⟨start, start + piece.length⟩) :
    (Prepared.of g c t source p format).1.markdown.HasAt
        (placeOf g c t source p format ⟨start, start + piece.length⟩) piece ∧
      ((Prepared.of g c t source p format).1.markdown.lineAt
          (placeOf g c t source p format ⟨start, start + piece.length⟩) : Int) =
        t.lineAt start + linesAdded g c t source p format ⟨start, start + piece.length⟩ := by
  have hseen := Collection.finite_readable_seenThrough hfin c
  have hexpands : ((Resolver.within g none).expander.weave? t source [source] c).isSome :=
    Weaver.weave?_isSome (Resolver.finds_expander _) hseen _ _ _ rfl
  have hends : ∀ m < passes g c t source p format, (lowering g p format).PassEnds c source
      ((lowering g p format).afterPasses c source (expanded g c t source) m) := fun _ _ =>
    Weaver.weave?_isSome (Lowering.finds_lowerer _) hseen _ _ _ rfl
  have hfits := Resolver.fits_insertions (Resolver.within g none) c t source []
  have hexpanded : expanded g c t source = t.splice (insertions g c t source) :=
    Resolver.expandVisited_text hexpands
  have hspan : expandedAt g c t source ⟨start, start + piece.length⟩ =
      ⟨t.landing (insertions g c t source) start,
        t.landing (insertions g c t source) start + piece.length⟩ := by
    unfold expandedAt
    rw [Nat.add_sub_cancel_left]
  have hpos := List.length_pos_iff.mpr hpiece
  have hlanding := Text.lineAt_landing hfits (p := start) fun part hpart => by
    rcases hcopied.kept part hpart with h | h
    · exact .inl h
    · exact .inr (Nat.le_trans (Nat.le_add_right _ _) h)
  have hthere := hstands.splice hfits hpiece hcopied.kept
  have hstays := hcopied.spared
  rw [markdown_eq g c t source p format hexpands, Lowering.lower_text]
  unfold placeOf linesAdded placeAfter
  rw [hspan] at hstays ⊢
  constructor
  · exact Lowering.hasAt_follow hpiece hends hstays (hexpanded ▸ hthere)
  · rw [← passes, Lowering.lineAt_follow hpiece hends hstays, hexpanded, ← add_assoc]
    exact congrArg (· + _) hlanding

end Prepared

/-- **The line of a report.** A piece of a note that is copied into the prepared text stands there,
and a report of its line behind the preamble is read back as one of that line of the prepared text.
It is the note's line with as many lines added as the expansion and the passes add in front of the
piece. -/
theorem reported_line (g : Collection) (hfin : g.readable.Finite) (c : Cache) (t : Text)
    (source : DocumentId) (p : Profile) (format : ExportFormat) {start : Nat} {piece : Text}
    (hpiece : piece ≠ []) (hstands : t.HasAt start piece)
    (hcopied : Prepared.Copied g c t source p format ⟨start, start + piece.length⟩)
    {front back message : Text} (hfront : ∀ x ∈ front.getLast?, x = '\n')
    (hback : ∀ x ∈ back.head?, Diagnostic.endsLine x = true)
    (hmessage : ∀ x ∈ message, Diagnostic.endsLine x = false) :
    let prepared := (Prepared.of g c t source p format).1
    let place := Prepared.placeOf g c t source p format ⟨start, start + piece.length⟩
    let line := prepared.markdown.lineAt place
    let header := prepared.preamble.lineCount
    prepared.markdown.HasAt place piece ∧
      Diagnostic.parse (front ++ (Diagnostic.reportOf (header + line) message ++ back)) header =
        Diagnostic.parse front header ++
          ((if header + line < Diagnostic.lineBound then
            [⟨line, Text.trimEnd (message.dropWhile isSpaceTab)⟩] else []) ++
              Diagnostic.parse back header) ∧
      (line : Int) = t.lineAt start +
        Prepared.linesAdded g c t source p format ⟨start, start + piece.length⟩ := by
  obtain ⟨hplace, hline⟩ := hcopied.stands hfin hpiece hstands
  exact ⟨hplace, Diagnostic.parse_report hfront hback hmessage (Nat.succ_pos _), hline⟩

/-! ### A line that is reported wrongly -/

/-- A note with two lines. -/
def twoLineVault : MemoryVault := ⟨[(.ofPath "n.md".toList, "a\nb".toList)], []⟩

/-- The embed of the note. -/
def twoLineEmbed : Hit Embed := ⟨⟨0, 6⟩, ⟨[], "n".toList⟩⟩

/-- The note. -/
abbrev twoLineNote : DocumentId := .ofPath "n.md".toList

/-- A note that embeds the other one, with a line behind it. -/
def twoLineText : Text := "![[n]]\nx".toList

theorem twoLineVault_expands (t : Text) (source : DocumentId) (above : List DocumentId) :
    ((Resolver.within twoLineVault.toCollection none).expander.weave? t source (source :: above)
      .empty).isSome :=
  Weaver.weave?_isSome (Resolver.finds_expander _)
    (Collection.finite_readable_seenThrough twoLineVault.finite_readable _) _ _ _ rfl

theorem twoLineVault_meant : (Resolver.within twoLineVault.toCollection none).noteMeant mainNote
    twoLineEmbed = some (twoLineNote, .whole) := by
  decide

theorem twoLineVault_reads : (Resolver.within twoLineVault.toCollection none).Reads twoLineNote .whole
    "a\nb".toList :=
  ⟨"a\nb".toList, by decide, by decide⟩

/-- The expansion puts both lines in the place of the embed. -/
theorem twoLineVault_insertions :
    Prepared.insertions twoLineVault.toCollection .empty twoLineText mainNote =
      [(⟨0, 6⟩, "a\nb".toList)] := by
  have hinner : ((Resolver.within twoLineVault.toCollection none).expandVisited .empty
      "a\nb".toList twoLineNote [twoLineNote, mainNote]).1.text = "a\nb".toList := by
    rw [Resolver.expandVisited_text (twoLineVault_expands _ _ _), Resolver.insertions,
      show Text.openEmbeds "a\nb".toList = [] by decide]
    rfl
  have hinserted : (Resolver.within twoLineVault.toCollection none).inserted .empty mainNote []
      twoLineEmbed = some "a\nb".toList := by
    rw [Resolver.inserted_of_reads (by rw [Resolver.seenThrough_empty]; exact twoLineVault_meant)
      (by decide) (by rw [Resolver.seenThrough_empty]; exact twoLineVault_reads), hinner]
    rfl
  unfold Prepared.insertions
  rw [Resolver.insertions, show Text.openEmbeds twoLineText = [twoLineEmbed] from rfl,
    List.filterMap_cons_some (by rw [hinserted]; rfl)]
  rfl

theorem twoLineVault_expanded :
    Prepared.expanded twoLineVault.toCollection .empty twoLineText mainNote =
      "a\nb\nx".toList := by
  unfold Prepared.expanded Resolver.expand
  rw [Resolver.expandVisited_text (twoLineVault_expands _ _ _)]
  show twoLineText.splice (Prepared.insertions _ _ _ _) = _
  rw [twoLineVault_insertions]
  rfl

theorem twoLineVault_afterPasses (n : Nat) :
    (Prepared.lowering twoLineVault.toCollection {} .pdf).afterPasses .empty mainNote
      "a\nb\nx".toList n = "a\nb\nx".toList :=
  Function.iterate_fixed
    (Lowering.passText_of_vault twoLineVault _ _ (by decide) (by decide)) n

theorem twoLineVault_markdown :
    (Prepared.of twoLineVault.toCollection .empty twoLineText mainNote {} .pdf).1.markdown =
      "a\nb\nx".toList := by
  rw [Prepared.markdown_eq _ _ _ _ _ _ (twoLineVault_expands _ _ _), twoLineVault_expanded,
    Lowering.lower_text, twoLineVault_afterPasses]

/-- The line behind the embed is copied. -/
theorem twoLineVault_copied :
    Prepared.Copied twoLineVault.toCollection .empty twoLineText mainNote {} .pdf ⟨7, 8⟩ where
  kept := by
    rw [twoLineVault_insertions]
    intro part hpart
    rw [List.mem_singleton.mp hpart]
    exact .inl (by decide)
  spared m _ := by
    rw [twoLineVault_expanded, twoLineVault_afterPasses, Lowering.seenThrough_empty]
    intro site hsite
    rw [show (Prepared.lowering twoLineVault.toCollection {} .pdf).sitesIn "a\nb\nx".toList
      mainNote = [] by decide] at hsite
    cases hsite

/-- **A line can be reported wrongly.** The second line of a note, copied as it is, is the third one
of the prepared text, as the embed in front of it has two lines in its place; a report of it is read
as one of the third line. -/
theorem copied_line_misreported :
    let prepared := (Prepared.of twoLineVault.toCollection .empty twoLineText mainNote {} .pdf).1
    twoLineText.lines[1]? = some ⟨7, ['x']⟩ ∧
      Prepared.Copied twoLineVault.toCollection .empty twoLineText mainNote {} .pdf ⟨7, 8⟩ ∧
      prepared.markdown.lines[2]? = some ⟨4, ['x']⟩ ∧
      Diagnostic.parse (Diagnostic.reportOf (prepared.preamble.lineCount + 3) ['x'])
        prepared.preamble.lineCount = [⟨3, ['x']⟩] := by
  intro prepared
  have hmarkdown : prepared.markdown = "a\nb\nx".toList := twoLineVault_markdown
  have hheader : prepared.preamble.lineCount = 4 := by decide +kernel
  rw [hmarkdown, hheader]
  exact ⟨by decide, twoLineVault_copied, by decide, by decide +kernel⟩

/-- The report of that line. -/
theorem reported_line_behind_embed :
    let prepared := (Prepared.of twoLineVault.toCollection .empty twoLineText mainNote {} .pdf).1
    let place := Prepared.placeOf twoLineVault.toCollection .empty twoLineText mainNote {} .pdf
      ⟨7, 7 + ['x'].length⟩
    let line := prepared.markdown.lineAt place
    let header := prepared.preamble.lineCount
    prepared.markdown.HasAt place ['x'] ∧
      Diagnostic.parse ("! Undefined control sequence.\n".toList ++
          (Diagnostic.reportOf (header + line) ['x'] ++ ['\n'])) header =
        Diagnostic.parse "! Undefined control sequence.\n".toList header ++
          ((if header + line < Diagnostic.lineBound then
            [⟨line, Text.trimEnd (['x'].dropWhile isSpaceTab)⟩] else []) ++
              Diagnostic.parse ['\n'] header) ∧
      (line : Int) = twoLineText.lineAt 7 + Prepared.linesAdded twoLineVault.toCollection .empty
        twoLineText mainNote {} .pdf ⟨7, 7 + ['x'].length⟩ :=
  reported_line twoLineVault.toCollection twoLineVault.finite_readable .empty twoLineText mainNote {}
    .pdf (by decide) ⟨[], rfl⟩ twoLineVault_copied (by simp) (by simp; decide) (by simp; decide)

end NotePress
