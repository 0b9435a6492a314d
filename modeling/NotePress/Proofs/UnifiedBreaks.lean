import NotePress.Proofs.Bytes
import NotePress.Proofs.CountedLines
import NotePress.Proofs.Lines
import NotePress.Proofs.Occurrences

/-!
# Breaks of one kind

A line that is counted ends in one of three ways. The numbers of lines of two texts add up when the
texts are put together, unless a line goes over the place where they meet. One does if the first
text does not end with a break, and also if it ends with a carriage return and the second one starts
with a line feed, for then two breaks become one (`Text.lineCount_append_iff`).

Once every break is written as a line feed (`Text.unifyBreaks`) the counted lines are what they were
and they are the lines between line feeds (`Text.lines_unifyBreaks`). On texts that are kept as
bytes the breaks are counted byte by byte, a pair in one step, and a last line without a break is
added at the end. No byte of a wide character is taken for a break (`Text.byteLineCount_encode`).
-/

namespace NotePress.Text

/-- Whether a text ends with a break that the text behind it does not complete. -/
def EndsBefore (a b : Text) : Prop :=
  (a.getLast? = some '\r' ∨ a.getLast? = some '\n') ∧
    ¬(a.getLast? = some '\r' ∧ b.head? = some '\n')

/-- Writes every break as a line feed: the pairs, then the carriage returns that are left. -/
def unifyBreaks (t : Text) : Text := replace ['\r'] ['\n'] (replace ['\r', '\n'] ['\n'] t)

/-- Whether no line is left open at the end of a text. -/
def isEnded (t : Text) : Bool := t.getLast?.all isBreakChar

/-- Whether a byte ends a line. -/
def isBreakByte (b : UInt8) : Bool := b = 0x0A || b = 0x0D

/-- The breaks in some bytes, a pair of both taken in one step. -/
def breakCount : List UInt8 → Nat
  | [] => 0
  | 0x0D :: 0x0A :: rest => breakCount rest + 1
  | 0x0D :: rest => breakCount rest + 1
  | 0x0A :: rest => breakCount rest + 1
  | _ :: rest => breakCount rest

/-- The lines that are counted in some bytes; the last one need not be ended. -/
def byteLineCount (bytes : List UInt8) : Nat :=
  breakCount bytes + if bytes.getLast?.all isBreakByte then 0 else 1

variable {a b t l rest brk : Text} {c : Char}

theorem CountedBreak.ne_nil (h : CountedBreak rest brk) : brk ≠ [] := by
  cases h <;> exact List.cons_ne_nil _ _

/-! ### Texts put together -/

theorem getLast?_line (l brk : Text) (hne : rest ≠ []) :
    (l ++ (brk ++ rest)).getLast? = rest.getLast? := by
  rw [← List.append_assoc, List.getLast?_append_of_ne_nil _ hne]

theorem lineCount_line (hl : Unbroken l) (hbrk : CountedBreak rest brk) :
    lineCount (l ++ (brk ++ rest)) = lineCount rest + 1 := by
  rw [← length_countedLines, countedLines_line hl hbrk, List.length_cons, length_countedLines]

/-- A text without breaks leaves its line open. -/
theorem lineCount_append_of_unbroken (hl : Unbroken l) (hne : b ≠ []) :
    lineCount (l ++ b) = lineCount b := by
  rw [← length_countedLines, countedLines_append hl hne, List.length_modifyHead,
    length_countedLines]

/-- More text behind what follows on a break does not complete it. -/
theorem CountedBreak.append (h : CountedBreak rest brk) (hne : rest ≠ []) (b : Text) :
    CountedBreak (rest ++ b) brk := by
  cases h with
  | lineFeed => exact .lineFeed
  | pair => exact .pair
  | carriageReturn h => exact .carriageReturn (by rwa [List.head?_append_of_ne_nil _ hne])

/-- Only a carriage return is completed by another text. -/
theorem CountedBreak.completed (h : CountedBreak rest brk) (hb : ¬CountedBreak b brk) :
    brk = ['\r'] ∧ ∃ back, b = '\n' :: back := by
  cases h with
  | lineFeed => exact absurd .lineFeed hb
  | pair => exact absurd .pair hb
  | carriageReturn =>
    refine ⟨rfl, List.head?_eq_some_iff.mp ?_⟩
    by_contra hhead
    exact hb (.carriageReturn hhead)

/-- A break ends before a text that does not complete it. -/
theorem endsBefore_break (l : Text) (hbrk : CountedBreak rest brk) :
    EndsBefore (l ++ brk) b ↔ CountedBreak b brk := by
  cases hbrk with
  | lineFeed =>
    refine iff_of_true ?_ .lineFeed
    simp [EndsBefore]
  | pair =>
    refine iff_of_true ?_ .pair
    simp [EndsBefore]
  | carriageReturn =>
    have hends : EndsBefore (l ++ ['\r']) b ↔ b.head? ≠ some '\n' := by simp [EndsBefore]
    rw [hends]
    refine ⟨.carriageReturn, ?_⟩
    rintro ⟨⟩
    assumption

/-- Behind a last break the numbers add up just when it is not completed. -/
theorem lineCount_break_append_iff (hl : Unbroken l) (hbrk : CountedBreak [] brk) (b : Text) :
    lineCount (l ++ brk ++ b) = lineCount (l ++ brk) + lineCount b ↔ CountedBreak b brk := by
  have hone : lineCount (l ++ brk) = 1 := by
    have h := lineCount_line hl hbrk
    rwa [List.append_nil] at h
  rw [hone, List.append_assoc, Nat.add_comm]
  by_cases hb : CountedBreak b brk
  · exact iff_of_true (lineCount_line hl hb) hb
  · obtain ⟨rfl, back, rfl⟩ := hbrk.completed hb
    have hpair : lineCount (l ++ (['\r'] ++ '\n' :: back)) = lineCount back + 1 :=
      lineCount_line hl .pair
    have hfeed : lineCount ('\n' :: back) = lineCount back + 1 :=
      lineCount_line (l := []) (by simp [Unbroken]) .lineFeed
    refine iff_of_false ?_ hb
    omega

/-- **When numbers of lines add up**: if no line goes over the place where the texts meet. -/
theorem lineCount_append_iff (a b : Text) :
    lineCount (a ++ b) = lineCount a + lineCount b ↔ a = [] ∨ b = [] ∨ a.EndsBefore b := by
  by_cases hb : b = []
  · simp [hb]
  -- by induction on the lines of the first text: only its last break meets the second one
  induction a using countedLines_induct with
  | last l hl =>
    by_cases hne : l = []
    · simp [hne]
    · have hopen : ¬EndsBefore l b := by
        rintro ⟨hlast | hlast, -⟩
        · exact hl.not_mem.1 (List.mem_of_getLast? hlast)
        · exact hl.not_mem.2 (List.mem_of_getLast? hlast)
      have hone : lineCount l = 1 := by
        rw [← length_countedLines, countedLines_of_unbroken hl hne, List.length_singleton]
      rw [lineCount_append_of_unbroken hl hb, hone]
      simp [hne, hb, hopen]
  | line l brk rest hl hbrk ih =>
    have hne : l ++ (brk ++ rest) ≠ [] := by simp [hbrk.ne_nil]
    by_cases hrest : rest = []
    · subst hrest
      rw [List.append_nil] at hne ⊢
      rw [lineCount_break_append_iff hl hbrk, endsBefore_break l hbrk]
      simp [hne, hb]
    · have hends : EndsBefore (l ++ (brk ++ rest)) b ↔ EndsBefore rest b := by
        rw [EndsBefore, getLast?_line l brk hrest, EndsBefore]
      rw [List.append_assoc, List.append_assoc, lineCount_line hl (hbrk.append hrest b),
        lineCount_line hl hbrk, hends, Nat.add_right_comm, Nat.add_right_cancel_iff, ih]
      simp [hne, hrest]

/-! ### Line feeds only -/

theorem unifyBreaks_of_unbroken (hl : Unbroken l) : unifyBreaks l = l := by
  have hstays : ∀ needle, replace ('\r' :: needle) ['\n'] l = l := fun needle =>
    calc replace ('\r' :: needle) ['\n'] l
        = replace ('\r' :: needle) ['\n'] (l ++ []) := by rw [List.append_nil]
      _ = l ++ replace ('\r' :: needle) ['\n'] [] := replace_append_of_not_mem hl.not_mem.1 []
      _ = l := List.append_nil l
  rw [unifyBreaks, hstays, hstays]

/-- A line keeps its place when its break is written as a line feed. -/
theorem unifyBreaks_line (hl : Unbroken l) (hbrk : CountedBreak rest brk) :
    unifyBreaks (l ++ (brk ++ rest)) = l ++ '\n' :: unifyBreaks rest := by
  have hreturn := hl.not_mem.1
  have hfeed : ∀ {needle : Text} (t : Text), replace ('\r' :: needle) ['\n'] ('\n' :: t) =
      '\n' :: replace ('\r' :: needle) ['\n'] t := fun t =>
    replace_cons fun h => absurd (List.cons_prefix_cons.mp h).1 (by decide)
  unfold unifyBreaks
  rw [replace_append_of_not_mem hreturn]
  cases hbrk with
  | lineFeed =>
    rw [List.singleton_append, hfeed, replace_append_of_not_mem hreturn, hfeed]
  | pair =>
    rw [replace_append (List.cons_ne_nil _ _), replace_append_of_not_mem hreturn,
      List.singleton_append, hfeed]
  | carriageReturn h =>
    have hlone : ¬['\r', '\n'] <+: '\r' :: rest := by
      rintro ⟨back, hback⟩
      cases hback
      exact h rfl
    rw [List.singleton_append, replace_cons hlone, replace_append_of_not_mem hreturn]
    exact congrArg (l ++ ·) (replace_append (List.cons_ne_nil _ _) _)

/-- **The same lines** are counted when every break is a line feed. -/
theorem countedLines_unifyBreaks (t : Text) : (unifyBreaks t).countedLines = t.countedLines := by
  induction t using countedLines_induct with
  | last l hl => rw [unifyBreaks_of_unbroken hl]
  | line l brk rest hl hbrk ih =>
    rw [unifyBreaks_line hl hbrk, countedLines_feed hl, countedLines_line hl hbrk, ih]

/-- **Lines between line feeds** are what is counted when every break is one. -/
theorem lines_unifyBreaks (t : Text) :
    (unifyBreaks t).lines.map (·.content) = t.countedLines := by
  induction t using countedLines_induct with
  | last l hl =>
    rw [unifyBreaks_of_unbroken hl]
    by_cases hne : l = []
    · subst hne
      rfl
    · rw [lines_of_not_mem hl.not_mem.2 hne, countedLines_of_unbroken hl hne]
      rfl
  | line l brk rest hl hbrk ih =>
    have hreturn : l.getLast? ≠ some '\r' := fun hlast =>
      hl.not_mem.1 (List.mem_of_getLast? hlast)
    rw [unifyBreaks_line hl hbrk, contents_line hl.not_mem.2 hreturn, ih,
      countedLines_line hl hbrk]

theorem isEnded_line (l : Text) (hbrk : CountedBreak rest brk) :
    isEnded (l ++ (brk ++ rest)) = isEnded rest := by
  by_cases hrest : rest = []
  · subst hrest
    cases hbrk <;> simp [isEnded, isBreakChar]
  · rw [isEnded, getLast?_line l brk hrest, isEnded]

/-- Each break ends a line, and what is behind the last one is a line if there is something. -/
theorem lineCount_eq_count_add (t : Text) :
    t.lineCount = (unifyBreaks t).count '\n' + if t.isEnded then 0 else 1 := by
  induction t using countedLines_induct with
  | last l hl =>
    have hcount : l.count '\n' = 0 := List.count_eq_zero.mpr hl.not_mem.2
    rw [unifyBreaks_of_unbroken hl, hcount, ← length_countedLines]
    rcases List.eq_nil_or_concat' l with rfl | ⟨front, c, rfl⟩
    · rfl
    · rw [countedLines_of_unbroken hl (by simp)]
      simp [isEnded, hl c (by simp)]
  | line l brk rest hl hbrk ih =>
    have hcount : l.count '\n' = 0 := List.count_eq_zero.mpr hl.not_mem.2
    rw [lineCount_line hl hbrk, unifyBreaks_line hl hbrk, isEnded_line l hbrk, ih,
      List.count_append, hcount, List.count_cons_self]
    omega

/-! ### Bytes -/

/-- **A byte is a break just if its character is one.** -/
theorem isBreakByte_of_mem {byte : UInt8} (h : byte ∈ encodeChar c) :
    isBreakByte byte = isBreakChar c := by
  rcases encodeChar_cases c with ⟨b, hone, hnumber⟩ | hwide
  · rw [hone, List.mem_singleton] at h
    subst h
    have hfeed : byte = 0x0A ↔ c = '\n' := by
      rw [← UInt8.toNat_inj, hnumber, ← Char.toNat_inj]
      rfl
    have hreturn : byte = 0x0D ↔ c = '\r' := by
      rw [← UInt8.toNat_inj, hnumber, ← Char.toNat_inj]
      rfl
    simp only [isBreakByte, isBreakChar, hfeed, hreturn]
  · have hbyte : isBreakByte byte = false := by
      have hlarge := hwide byte h
      simp only [isBreakByte, Bool.or_eq_false_iff, decide_eq_false_iff_not]
      constructor <;> rintro rfl <;> exact absurd hlarge (by decide)
    have hchar : isBreakChar c = false := by
      simp only [isBreakChar, Bool.or_eq_false_iff, decide_eq_false_iff_not]
      constructor <;> rintro rfl <;> exact absurd (hwide _ (List.mem_singleton_self _)) (by decide)
    rw [hbyte, hchar]

theorem isBreakByte_of_unbroken (hl : Unbroken l) :
    ∀ byte ∈ encode l, isBreakByte byte = false := by
  intro byte hbyte
  obtain ⟨c, hc, hbyte⟩ := List.mem_flatMap.mp hbyte
  rw [isBreakByte_of_mem hbyte]
  exact hl c hc

/-- The bytes of a text start with a line feed just if the text does. -/
theorem head?_encode (h : t.head? ≠ some '\n') : (encode t).head? ≠ some 0x0A := by
  cases t with
  | nil => simp [encode]
  | cons c rest =>
    intro hhead
    have hhead : (encodeChar c).head? = some 0x0A := by
      rwa [encode, List.flatMap_cons, List.head?_append_of_ne_nil _ (encodeChar_ne_nil c)] at hhead
    have hbreak := isBreakByte_of_mem (List.mem_of_head? hhead)
    have hc : c = '\n' ∨ c = '\r' := by simpa [isBreakChar, isBreakByte] using hbreak.symm
    rcases hc with rfl | rfl
    · exact h rfl
    · cases hhead

theorem breakCount_append {front : List UInt8} (h : ∀ byte ∈ front, isBreakByte byte = false)
    (bytes : List UInt8) : breakCount (front ++ bytes) = breakCount bytes := by
  induction front with
  | nil => rfl
  | cons byte front ih =>
    obtain ⟨hbyte, hfront⟩ := List.forall_mem_cons.mp h
    -- each of the other equations of `breakCount` is about a break
    rw [List.cons_append, breakCount, ih hfront]
    all_goals
      intros
      subst_vars
      exact absurd hbyte (by decide)

theorem breakCount_return {bytes : List UInt8} (h : bytes.head? ≠ some 0x0A) :
    breakCount (0x0D :: bytes) = breakCount bytes + 1 := by
  rw [breakCount]
  rintro rest rfl
  exact h rfl

/-- As many breaks are found in the bytes as there are line feeds when every break is one. -/
theorem breakCount_encode (t : Text) : breakCount t.encode = (unifyBreaks t).count '\n' := by
  induction t using countedLines_induct with
  | last l hl =>
    have hnone := breakCount_append (isBreakByte_of_unbroken hl) []
    rw [List.append_nil] at hnone
    rw [hnone, unifyBreaks_of_unbroken hl, List.count_eq_zero.mpr hl.not_mem.2]
    rfl
  | line l brk rest hl hbrk ih =>
    have hbreak : breakCount (encode brk ++ encode rest) = breakCount (encode rest) + 1 := by
      cases hbrk with
      | lineFeed => rfl
      | pair => rfl
      | carriageReturn h => exact breakCount_return (head?_encode h)
    rw [encode_append, encode_append, breakCount_append (isBreakByte_of_unbroken hl), hbreak, ih,
      unifyBreaks_line hl hbrk, List.count_append, List.count_eq_zero.mpr hl.not_mem.2,
      List.count_cons_self, Nat.zero_add]

theorem all_getLast?_encode (t : Text) : (encode t).getLast?.all isBreakByte = t.isEnded := by
  rcases List.eq_nil_or_concat' t with rfl | ⟨front, c, rfl⟩
  · rfl
  · have hbytes : encode (front ++ [c]) = encode front ++ encodeChar c := by
      rw [encode_append]
      exact congrArg (encode front ++ ·) (List.append_nil _)
    obtain ⟨byte, hlast⟩ := Option.ne_none_iff_exists'.mp
      (mt List.getLast?_eq_none_iff.mp (encodeChar_ne_nil c))
    rw [hbytes, List.getLast?_append_of_ne_nil _ (encodeChar_ne_nil c), hlast, isEnded,
      List.getLast?_concat, Option.all_some, Option.all_some]
    exact isBreakByte_of_mem (List.mem_of_getLast? hlast)

/-- **Counting byte by byte** gives the lines of the text. -/
theorem byteLineCount_encode (t : Text) : byteLineCount t.encode = t.lineCount := by
  rw [byteLineCount, breakCount_encode, all_getLast?_encode, lineCount_eq_count_add]

/-- **Numbers of lines.** They add up in two texts that are put together just when one of them is
empty, or the first one ends with a break that the second one does not complete. They are the same
when every break, of any kind, is written as a line feed: then the lines that are counted are those
between line feeds, as many as there are line feeds and one more for a last line that is not ended.
Counting breaks byte by byte finds as many. -/
theorem line_counts_add_up :
    (∀ a b : Text,
      lineCount (a ++ b) = lineCount a + lineCount b ↔ a = [] ∨ b = [] ∨ a.EndsBefore b) ∧
    ∀ t : Text,
      (unifyBreaks t).lineCount = t.lineCount ∧
      (unifyBreaks t).lineCount = (unifyBreaks t).lines.length ∧
      (unifyBreaks t).lines.map (·.content) = t.countedLines ∧
      t.lineCount = ((unifyBreaks t).count '\n' + if t.isEnded then 0 else 1) ∧
      t.lineCount = byteLineCount t.encode := by
  refine ⟨lineCount_append_iff, fun t => ?_⟩
  have hsame : (unifyBreaks t).lineCount = t.lineCount := by
    rw [← length_countedLines, countedLines_unifyBreaks, length_countedLines]
  have hlines := congrArg List.length (lines_unifyBreaks t)
  rw [List.length_map, length_countedLines] at hlines
  exact ⟨hsame, hsame.trans hlines.symm, lines_unifyBreaks t, lineCount_eq_count_add t,
    (byteLineCount_encode t).symm⟩

/-- A pair that is cut in two is counted twice. -/
example : lineCount "a\r".toList + lineCount "\nb".toList = 3 ∧
    lineCount "a\r\nb".toList = 2 ∧ unifyBreaks "a\r\nb\r".toList = "a\nb\n".toList := by
  decide

end NotePress.Text
