import Mathlib.Tactic.IntervalCases
import Mathlib.Tactic.Ring
import NotePress.Proofs.QuotedScan
import NotePress.Yaml.Writer

/-!
# Scanning scalars of written YAML

Every text is read back in the style it is written in. In double quotes each character has its
escape (`standsFor_escape`); in single quotes a break is followed by indentation (`quoted_single`).
Without quotes a text is read up to the colon or the line that ends it (`readPlain?_plain`): it is
taken as runs with spaces between them, and `ReadsPlain` says at each place how both go on.
-/

namespace NotePress.Yaml

/-! ### Double quotes -/

theorem isSpaceTab_of_isShown {x : Char} (hx : isShown x = true) (hspace : x ≠ ' ') :
    isSpaceTab x = false := by
  have htab : x ≠ '\t' := by
    rintro rfl
    exact absurd hx (by decide)
  simp [isSpaceTab, hspace, htab]

/-- A character that is shown may stand in a text. -/
theorem isAllowed_of_isShown {x : Char} (hx : isShown x = true) : isAllowed x = true := by
  have hvalid := x.valid
  have hval : x.toNat = x.val.toNat := rfl
  simp only [UInt32.isValidChar, Nat.isValidChar] at hvalid
  simp only [isShown, Bool.or_eq_true, Bool.and_eq_true, decide_eq_true_eq] at hx
  simp only [isAllowed, Bool.or_eq_true, Bool.and_eq_true, decide_eq_true_eq]
  omega

/-- The characters that are escaped by a mark, with their marks. -/
def namedEscapes : List (Char × Char) :=
  [('\x00', '0'), ('\x07', 'a'), ('\x08', 'b'), ('\t', 't'), ('\n', 'n'), ('\x0b', 'v'),
    ('\x0c', 'f'), ('\r', 'r'), ('\x1b', 'e'), ('"', '"'), ('\\', '\\'), ('\u0085', 'N'), ('\u2028', 'L'),
    ('\u2029', 'P')]

theorem readEscape?_of_mem_named {x mark : Char} (h : (x, mark) ∈ namedEscapes) :
    escapeChar x = ['\\', mark] ∧ isBreak mark = false ∧ isAllowed mark = true ∧
      ∀ c : Cursor, c.peek = some mark → readEscape? c = some (x, c.skip) := by
  unfold namedEscapes at h
  simp only [List.mem_cons, Prod.mk.injEq, List.not_mem_nil, or_false] at h
  rcases h with ⟨rfl, rfl⟩ | ⟨rfl, rfl⟩ | ⟨rfl, rfl⟩ | ⟨rfl, rfl⟩ | ⟨rfl, rfl⟩ | ⟨rfl, rfl⟩ |
    ⟨rfl, rfl⟩ | ⟨rfl, rfl⟩ | ⟨rfl, rfl⟩ | ⟨rfl, rfl⟩ | ⟨rfl, rfl⟩ | ⟨rfl, rfl⟩ | ⟨rfl, rfl⟩ |
    ⟨rfl, rfl⟩ <;> exact ⟨by decide, by decide, by decide, fun c hc => by rw [readEscape?, hc]; rfl⟩

/-- Other characters stand as they are, or are escaped by their number. -/
theorem escapeChar_of_not_mem_named {x : Char} (h : ∀ mark, (x, mark) ∉ namedEscapes) :
    (escapeChar x = [x] ∧ isShown x = true ∧ isBreak x = false ∧ x ≠ '"' ∧ x ≠ '\\') ∨
      ∃ mark digits, (mark, digits) ∈ [('x', 2), ('u', 4), ('U', 8)] ∧ x.toNat < 16 ^ digits ∧
        (2 < digits → 16 ^ (digits / 2) ≤ x.toNat) ∧
          escapeChar x = '\\' :: mark :: upperHex digits x.toNat := by
  have hne : ∀ p ∈ namedEscapes, x ≠ p.1 := by
    rintro ⟨y, mark⟩ hp rfl
    exact h mark hp
  simp only [namedEscapes, List.forall_mem_cons, List.not_mem_nil, false_implies, implies_true,
    and_true] at hne
  obtain ⟨h0, ha, hb, ht, hn, hv, hf, hr, he, hquote, hslash, hN, hL, hP⟩ := hne
  by_cases hshown : isShown x = true ∧ isBreak x = false
  · exact .inl ⟨by simp [escapeChar, hshown, hquote, hslash], hshown.1, hshown.2, hquote, hslash⟩
  · refine .inr ?_
    have hbig : x.toNat < 16 ^ 8 := by
      have hvalid := x.valid
      have hval : x.toNat = x.val.toNat := rfl
      simp only [UInt32.isValidChar, Nat.isValidChar] at hvalid
      omega
    have hplain : (isShown x && !isBreak x) = false := by
      simpa using hshown
    unfold escapeChar
    simp only [hplain, h0, ha, hb, ht, hn, hv, hf, hr, he, hquote, hslash, hN, hL, hP,
      Bool.false_and, Bool.false_eq_true, if_false]
    split
    · exact ⟨'x', 2, by simp, by omega, by omega, rfl⟩
    · split
      · exact ⟨'u', 4, by simp, by omega, by omega, rfl⟩
      · exact ⟨'U', 8, by simp, hbig, by omega, rfl⟩

/-- The value of hexadecimal digits and one more. -/
def addHexDigit (value? : Option Nat) (x : Char) : Option Nat :=
  value?.bind fun v =>
    if x.isDigit then some (v * 16 + (x.toNat - '0'.toNat))
    else if 'a' ≤ x ∧ x ≤ 'f' then some (v * 16 + (x.toNat - 'a'.toNat + 10))
    else if 'A' ≤ x ∧ x ≤ 'F' then some (v * 16 + (x.toNat - 'A'.toNat + 10))
    else none

theorem addHexDigit_upperHexDigit (v n : Nat) :
    addHexDigit (some v) (upperHexDigit n) = some (v * 16 + n % 16) := by
  have hless : n % 16 < 16 := Nat.mod_lt _ (by decide)
  unfold upperHexDigit
  generalize n % 16 = d at hless
  interval_cases d <;> rfl

theorem length_upperHex (digits n : Nat) : (upperHex digits n).length = digits := by
  induction digits generalizing n with
  | zero => rfl
  | succ k ih => rw [upperHex, List.length_append, ih]; rfl

theorem foldl_upperHex (digits n v : Nat) :
    (upperHex digits n).foldl addHexDigit (some v) = some (v * 16 ^ digits + n % 16 ^ digits) := by
  induction digits generalizing n with
  | zero => simp [upperHex, Nat.mod_one]
  | succ k ih =>
    have hmod : n % (16 * 16 ^ k) = n % 16 + 16 * (n / 16 % 16 ^ k) := Nat.mod_mul
    rw [upperHex, List.foldl_append, ih, List.foldl_cons, List.foldl_nil,
      addHexDigit_upperHexDigit, Nat.pow_succ', hmod]
    congr 1
    ring

/-- **The digits of a number are read** as the number. -/
theorem readHex?_upperHex {digits n : Nat} (hn : n < 16 ^ digits) :
    readHex? digits (upperHex digits n) = some n := by
  have htake : (upperHex digits n).take digits = upperHex digits n :=
    List.take_of_length_le (Nat.le_of_eq (length_upperHex digits n))
  have hfold := foldl_upperHex digits n 0
  rw [Nat.zero_mul, Nat.zero_add, Nat.mod_eq_of_lt hn] at hfold
  unfold readHex?
  simp only [htake, length_upperHex, if_true]
  exact hfold

/-- **Every character is read back** from double quotes. -/
theorem standsFor_escape {x : Char} (hspace : x ≠ ' ') : StandsFor false (escapeChar x) x := by
  by_cases hnamed : ∃ mark, (x, mark) ∈ namedEscapes
  · obtain ⟨mark, hmem⟩ := hnamed
    obtain ⟨hescape, hmark, -, hread⟩ := readEscape?_of_mem_named hmem
    rw [hescape]
    refine .ofEscape [] hmark fun c more hc => ?_
    rw [hread c (Cursor.peek_of_rest hc), Cursor.skip_eq_skips hc]
    rfl
  · rcases escapeChar_of_not_mem_named (not_exists.mp hnamed) with
      ⟨hescape, hshown, hbreak, hquote, hslash⟩ | ⟨mark, digits, hmark, hless, -, hescape⟩
    · rw [hescape]
      exact .itself ⟨isSpaceTab_of_isShown hshown hspace, hbreak⟩ hquote fun _ => hslash
    · rw [hescape]
      refine .ofNumber (by rwa [length_upperHex]) ?_
      rw [length_upperHex]
      exact readHex?_upperHex hless

/-- A text in double quotes is read back. -/
theorem quoted_double (t : Text) : Quoted false false (t.flatMap escapeChar) t :=
  quoted_flatMap rfl fun _ _ => standsFor_escape

theorem mem_upperHex {digits n : Nat} {y : Char} (hy : y ∈ upperHex digits n) :
    isAllowed y = true ∧ isBreak y = false := by
  have hdigits : ∀ d < 16, isAllowed (Nat.digitChar d).toUpper = true ∧
      isBreak (Nat.digitChar d).toUpper = false := by decide
  induction digits generalizing n with
  | zero => cases hy
  | succ k ih =>
    rcases List.mem_append.mp hy with hy | hy
    · exact ih hy
    · rw [List.mem_singleton.mp hy]
      exact hdigits _ (Nat.mod_lt _ (by decide))

/-- What is written of a character may stand in a text, and breaks no line. -/
theorem isAllowed_of_mem_escape {x y : Char} (hy : y ∈ escapeChar x) :
    isAllowed y = true ∧ isBreak y = false := by
  by_cases hnamed : ∃ mark, (x, mark) ∈ namedEscapes
  · obtain ⟨mark, hmem⟩ := hnamed
    obtain ⟨hescape, hmark, hallowed, -⟩ := readEscape?_of_mem_named hmem
    rw [hescape] at hy
    rcases List.mem_cons.mp hy with rfl | hy
    · decide
    · rw [List.mem_singleton.mp hy]
      exact ⟨hallowed, hmark⟩
  · rcases escapeChar_of_not_mem_named (not_exists.mp hnamed) with
      ⟨hescape, hshown, hbreak, -⟩ | ⟨mark, digits, hmark, -, -, hescape⟩
    · rw [hescape] at hy
      rw [List.mem_singleton.mp hy]
      exact ⟨isAllowed_of_isShown hshown, hbreak⟩
    · have hmarks : ∀ p ∈ [('x', 2), ('u', 4), ('U', 8)],
          isAllowed p.1 = true ∧ isBreak p.1 = false := by decide
      rw [hescape] at hy
      rcases List.mem_cons.mp hy with rfl | hy
      · decide
      rcases List.mem_cons.mp hy with rfl | hy
      · exact hmarks (y, digits) hmark
      · exact mem_upperHex hy

/-! ### Single quotes -/

/-- A break among shown characters is kept as it is. -/
theorem isKeptBreak_of_isShown {x : Char} (hx : isShown x = true) (hbreak : isBreak x = true) :
    x = '\n' ∨ x = '\u2028' ∨ x = '\u2029' := by
  simp only [isBreak, Bool.or_eq_true, decide_eq_true_eq] at hbreak
  rcases hbreak with (((rfl | rfl) | rfl) | rfl) | rfl
  · exact absurd hx (by decide)
  · exact .inl rfl
  · exact absurd hx (by decide)
  · exact .inr (.inl rfl)
  · exact .inr (.inr rfl)

/-- A character as it stands in single quotes. -/
def doubleQuote (x : Char) : Text := if x = '\'' then ['\'', '\''] else [x]

theorem standsFor_doubleQuote {x : Char} (hx : isShown x = true) (hbreak : isBreak x = false)
    (hspace : x ≠ ' ') : StandsFor true (doubleQuote x) x := by
  unfold doubleQuote
  split
  · rename_i hquote
    subst hquote
    exact standsFor_doubled
  · rename_i hquote
    exact .itself ⟨isSpaceTab_of_isShown hx hspace, hbreak⟩ hquote nofun

/-- A text that may stand in single quotes: without line feeds, and no space is beside a break. -/
structure SingleQuoted (t : Text) : Prop where
  shown : ∀ x ∈ t, isShown x = true
  noFeed : '\n' ∉ t
  breakSpace : hasPair isBreak (· = ' ') t = false
  spaceBreak : hasPair (· = ' ') isBreak t = false

theorem hasPair_cons {first second : Char → Bool} {x : Char} {t : Text}
    (h : hasPair first second (x :: t) = false) :
    hasPair first second t = false ∧ ∀ y ∈ t.head?, first x = true → second y = false := by
  cases t with
  | nil => exact ⟨rfl, by simp⟩
  | cons y t =>
    rw [hasPair, Bool.or_eq_false_iff] at h
    refine ⟨h.2, ?_⟩
    rintro _ ⟨⟩ hx
    simpa [hx] using h.1

theorem SingleQuoted.tail {x : Char} {t : Text} (h : SingleQuoted (x :: t)) : SingleQuoted t where
  shown y hy := h.shown y (List.mem_cons_of_mem _ hy)
  noFeed hmem := h.noFeed (List.mem_cons_of_mem _ hmem)
  breakSpace := (hasPair_cons h.breakSpace).1
  spaceBreak := (hasPair_cons h.spaceBreak).1

theorem singleQuotedBody_cons {indent : Nat} {broken : Bool} {x : Char} {t : Text}
    (hx : ¬isBreak x = true) : singleQuotedBody indent broken (x :: t) =
      (if broken then List.replicate indent ' ' else []) ++
        (doubleQuote x ++ singleQuotedBody indent false t) := by
  simp [singleQuotedBody, hx, doubleQuote]

/-- What is written of a text begins with no break, unless the text does. -/
theorem head?_singleQuotedBody {t : Text} (indent : Nat) (ht : ∀ y ∈ t.head?, isBreak y = false) :
    ∀ y ∈ (singleQuotedBody indent false t).head?, isBreak y = false := by
  cases t with
  | nil => simp [singleQuotedBody]
  | cons x t =>
    have hx : isBreak x = false := ht x rfl
    rw [singleQuotedBody_cons (by rw [hx]; decide)]
    simp only [Bool.false_eq_true, if_false, List.nil_append, doubleQuote]
    split <;> rintro _ ⟨⟩
    · rfl
    · exact hx

/-- **A text in single quotes is read back**: behind breaks its lines are indented. -/
theorem quoted_single {t : Text} (ht : SingleQuoted t) (n : Nat) :
    Quoted true false (singleQuotedBody (n + 1) false t) t ∧
      ((∀ y ∈ t.head?, y ≠ ' ') → Quoted true true (singleQuotedBody (n + 1) true t) t) := by
  induction t with
  | nil =>
    refine ⟨.nil, fun _ => ?_⟩
    rw [singleQuotedBody, if_pos rfl, ← List.append_nil (List.replicate _ _)]
    exact .indented n (by simp) .nil
  | cons x t ih =>
    obtain ⟨hunbroken, hbroken⟩ := ih ht.tail
    have hshown := ht.shown x (List.mem_cons_self ..)
    by_cases hbreak : isBreak x = true
    · have hkept : isKeptBreak x = true := by
        have hne : x ≠ '\n' := fun h => ht.noFeed (by rw [h]; exact List.mem_cons_self ..)
        simpa [isKeptBreak, hne] using isKeptBreak_of_isShown hshown hbreak
      have hlater := hbroken fun y hy => by
        simpa using (hasPair_cons ht.breakSpace).2 y hy hbreak
      simp only [singleQuotedBody, hbreak, if_true]
      exact ⟨.lineBreak false hkept hlater, fun _ => .lineBreak true hkept hlater⟩
    · rw [singleQuotedBody_cons hbreak, singleQuotedBody_cons hbreak]
      simp only [Bool.false_eq_true, if_false, if_true, List.nil_append]
      by_cases hspace : x = ' '
      · subst hspace
        have hnext := head?_singleQuotedBody (n + 1) fun y hy =>
          (hasPair_cons ht.spaceBreak).2 y hy (by simp)
        exact ⟨.space hnext hunbroken, fun h => absurd rfl (h ' ' rfl)⟩
      · have hstands := standsFor_doubleQuote hshown (by simpa using hbreak) hspace
        obtain ⟨y, v, hy, hgap⟩ := hstands.begins
        refine ⟨.char hstands hunbroken, fun _ => .indented n ?_ (.char hstands hunbroken)⟩
        rw [hy]
        rintro _ ⟨⟩
        exact hgap

/-! ### Styles -/

/-- What is known of a text that is written in a style. -/
def ScalarStyle.Admits (isKey : Bool) (t : Text) : ScalarStyle → Prop
  | .plain => readsAsText t = true ∧ plainAllowed t = true
  | .singleQuoted => SingleQuoted t
  | .doubleQuoted => True
  | .literal => isKey = false ∧ t ≠ [] ∧ ∀ x ∈ t, isShown x = true

theorem admits_styleOf (isKey : Bool) (t : Text) : (styleOf isKey t).Admits isKey t := by
  unfold styleOf
  simp only
  split
  · split
    · rename_i hliteral
      simp only [literalAllowed, Bool.and_eq_true, Bool.not_eq_true', decide_eq_true_eq,
        List.all_eq_true] at hliteral
      exact ⟨hliteral.2, hliteral.1.1, hliteral.1.2.1.1⟩
    · trivial
  · rename_i hfeed
    split
    · trivial
    · split
      · rename_i hplain
        exact Bool.and_eq_true_iff.mp hplain
      · split
        · rename_i hsingle
          simp only [singleQuotesAllowed, Bool.and_eq_true, Bool.not_eq_true', List.all_eq_true]
            at hsingle
          exact ⟨hsingle.1.1, by simpa using hfeed, hsingle.1.2, hsingle.2⟩
        · trivial

/-! ### Plain texts -/

/-- How the reader of a plain scalar goes on behind a run. -/
def afterPlainRun (indent fuel : Nat) (done : Text) (c : Cursor) : Option (Text × Bool × Cursor) :=
  if isGapAt c.peek ∨ isBreakAt c.peek then
    (readSpacing? indent (c.rest.length + 1) {} c).bind fun q =>
      if q.2.column < indent then some (done.reverse, q.1.broken, q.2)
      else readPlainFrom? false indent fuel done q.1 q.2
  else some (done.reverse, false, c)

theorem readPlainFrom?_succ {indent fuel : Nat} {done run : Text} {s : Spacing} {c after : Cursor}
    (hdocument : c.seesDocumentMark = false) (hcomment : c.sees '#' = false)
    (hrun : readPlainRun? false (c.rest.length + 1) [] c = some (run, after)) (hne : run ≠ []) :
    readPlainFrom? false indent (fuel + 1) done s c =
      afterPlainRun indent fuel (run ++ s.fold.reverse ++ done) after := by
  rw [readPlainFrom?, hdocument, hcomment, hrun]
  simp only [Bool.false_eq_true, or_self, if_false, hne, afterPlainRun]
  cases readSpacing? indent (after.rest.length + 1) {} after <;> simp

/-- **Where a plain scalar ends**: what is left behind it, and whether a line was broken. -/
def EndsPlain (indent : Nat) (tail : Text) (broken : Bool) (behind : Cursor → Cursor) : Prop :=
  ∀ c : Cursor, c.rest = tail → plainEnds? false c = some true ∧
    ∀ fuel done, afterPlainRun indent fuel done c = some (done.reverse, broken, behind c)

/-- A plain scalar ends in front of a colon and a gap. -/
theorem endsPlain_colon {y : Char} {more : Text} (hy : isSpaceTab y = true ∨ isBreak y = true)
    (indent : Nat) : EndsPlain indent (':' :: y :: more) false id := by
  intro c hc
  have hpeek := Cursor.peek_of_rest hc
  have hahead : c.ahead 1 = some y := by unfold Cursor.ahead; rw [hc]; rfl
  have hgap : isGapOrEnd (some y) = true := by
    rcases hy with hy | hy <;> simp [isGapOrEnd, hy]
  refine ⟨?_, fun fuel done => ?_⟩
  · unfold plainEnds?
    rw [hpeek, hahead]
    simp [hgap]
  · unfold afterPlainRun
    rw [hpeek]
    rfl

/-- A plain scalar ends with its line, if the next one is not indented as far. -/
theorem endsPlain_line {indent n : Nat} {more : Text} (hn : n < indent)
    (hmore : ∀ y ∈ more.head?, isSpaceTab y = false ∧ isBreak y = false) :
    EndsPlain indent ('\n' :: (List.replicate n ' ' ++ more)) true fun c =>
      Cursor.skips ⟨List.replicate n ' ' ++ more, c.index + 1, c.line + 1, 0⟩ n := by
  intro c hc
  have hpeek := Cursor.peek_of_rest hc
  refine ⟨by unfold plainEnds?; rw [hpeek]; rfl, fun fuel done => ?_⟩
  have hbreak := Cursor.takeBreak_of_rest hc (.inl rfl)
  let start : Cursor := ⟨List.replicate n ' ' ++ more, c.index + 1, c.line + 1, 0⟩
  have hread : readSpacing? indent (c.rest.length + 1) {} c =
      some (({} : Spacing).addBreak ['\n'], start.skips n) := by
    have hfuel : c.rest.length = n + (more.length + 1) := by rw [hc]; simp; omega
    rw [readSpacing?_break hc rfl, hbreak, hfuel,
      readSpacing?_indentation (s := ({} : Spacing).addBreak ['\n']) rfl rfl]
    exact readSpacing?_stop (by simp) hmore _ _
  have hcolumn : (start.skips n).column < indent := by simpa [start] using hn
  unfold afterPlainRun
  rw [hpeek, if_pos (.inr rfl), hread, Option.bind_some, if_pos hcolumn]
  rfl

/-- What is left of a plain text; `gapBefore` says whether a gap stands in front of it. -/
structure PlainRest (gapBefore : Bool) (t : Text) : Prop where
  shown : ∀ x ∈ t, isShown x = true
  oneLine : ∀ x ∈ t, isBreak x = false
  marks : marksLater gapBefore t = false
  ends : t.getLast? ≠ some ' '

theorem PlainRest.tail {gapBefore : Bool} {x : Char} {t : Text} (h : PlainRest gapBefore (x :: t)) :
    PlainRest (isSpaceTab x) t where
  shown y hy := h.shown y (List.mem_cons_of_mem _ hy)
  oneLine y hy := h.oneLine y (List.mem_cons_of_mem _ hy)
  marks := by
    have hmarks := h.marks
    rw [marksLater, h.oneLine x (List.mem_cons_self ..), Bool.or_false] at hmarks
    exact (Bool.or_eq_false_iff.mp hmarks).2
  ends hlast := by
    refine h.ends ?_
    cases t with
    | nil => cases hlast
    | cons y t => rw [List.getLast?_cons_cons, hlast]

/-- Inside of a plain text no run ends but at a space. -/
theorem PlainRest.plainEnds? {gapBefore : Bool} {x : Char} {t tail : Text} {c : Cursor}
    (h : PlainRest gapBefore (x :: t)) (hspace : x ≠ ' ') (hc : c.rest = x :: (t ++ tail)) :
    plainEnds? false c = some false := by
  have hgap := isSpaceTab_of_isShown (h.shown x (List.mem_cons_self ..)) hspace
  have hbreak := h.oneLine x (List.mem_cons_self ..)
  have hcolon : ¬(x = ':' ∧ isGapOrEnd (c.ahead 1) = true) := by
    rintro ⟨rfl, hend⟩
    have hmarks := h.marks
    have hnext : gapNext t = false := by
      simpa [marksLater] using (Bool.or_eq_false_iff.mp (Bool.or_eq_false_iff.mp hmarks).1).1
    cases t with
    | nil => cases hnext
    | cons y t =>
      have hahead : c.ahead 1 = some y := by unfold Cursor.ahead; rw [hc]; rfl
      rw [hahead] at hend
      have hnext : (isSpaceTab y || isBreak y) = false := hnext
      rw [isGapOrEnd, hnext] at hend
      cases hend
  unfold Yaml.plainEnds?
  rw [Cursor.peek_of_rest hc]
  simp only [hgap, hbreak, hcolon]
  simp

/-- **How the reader goes on at a place of a plain scalar**: in a run, and in spacing. -/
structure ReadsPlain (indent : Nat) (tail : Text) (broken : Bool) (behind : Cursor → Cursor)
    (gapBefore : Bool) (t : Text) : Prop where
  run : ∀ (c : Cursor) (before : Text) (runFuel fuel : Nat), c.rest = t ++ tail →
    indent ≤ c.column + 1 → t.length < runFuel → t.length ≤ fuel →
    (before ≠ [] ∨ ∃ x u, t = x :: u ∧ x ≠ ' ') →
    ∃ run after, readPlainRun? false runFuel before c = some (run, after) ∧ run ≠ [] ∧
      ∀ done, afterPlainRun indent fuel (run ++ done) after =
        some (done.reverse ++ (before.reverse ++ t), broken, behind (c.skips t.length))
  spacing : gapBefore = true → t ≠ [] → ∀ (c : Cursor) (s : Spacing) (done : Text)
    (spaceFuel fuel : Nat), c.rest = t ++ tail → indent ≤ c.column → 0 < c.column →
    s.broken = false → t.length < spaceFuel → t.length < fuel →
    ((readSpacing? indent spaceFuel s c).bind fun q =>
      if q.2.column < indent then some (done.reverse, q.1.broken, q.2)
      else readPlainFrom? false indent fuel done q.1 q.2) =
      some (done.reverse ++ (s.fold ++ t), broken, behind (c.skips t.length))

variable {indent : Nat} {behind : Cursor → Cursor} {broken gapBefore : Bool} {t tail : Text}

theorem ReadsPlain.nil (hends : EndsPlain indent tail broken behind) :
    ReadsPlain indent tail broken behind gapBefore [] := by
  refine ⟨fun c before runFuel fuel hc _ hrun _ hbefore => ?_, fun _ hne => absurd rfl hne⟩
  obtain ⟨runFuel, rfl⟩ : ∃ n, runFuel = n + 1 := ⟨runFuel - 1, by omega⟩
  obtain ⟨hend, hafter⟩ := hends c hc
  refine ⟨before, c, by rw [readPlainRun?, hend], hbefore.resolve_right (by simp), fun done => ?_⟩
  rw [hafter]
  simp [Cursor.skips_zero]

/-- A space in a plain scalar is kept. -/
theorem ReadsPlain.space (h : ReadsPlain indent tail broken behind true t) (hne : t ≠ []) :
    ReadsPlain indent tail broken behind gapBefore (' ' :: t) := by
  have hspacing : ∀ (c : Cursor) (s : Spacing) (done : Text) (spaceFuel fuel : Nat),
      c.rest = ' ' :: t ++ tail → indent ≤ c.column + 1 → s.broken = false →
      (' ' :: t).length < spaceFuel → (' ' :: t).length ≤ fuel →
      ((readSpacing? indent spaceFuel s c).bind fun q =>
        if q.2.column < indent then some (done.reverse, q.1.broken, q.2)
        else readPlainFrom? false indent fuel done q.1 q.2) =
        some (done.reverse ++ (s.fold ++ ' ' :: t), broken,
          behind (c.skips (' ' :: t).length)) := by
    intro c s done spaceFuel fuel hc hcolumn hs hspace hfuel
    rw [List.length_cons] at hspace hfuel
    obtain ⟨spaceFuel, rfl⟩ : ∃ n, spaceFuel = n + 1 := ⟨spaceFuel - 1, by omega⟩
    obtain ⟨hbroken, hfold⟩ := s.addBlank_of_unbroken hs
    have hread := h.spacing rfl hne (c.skips 1) (s.addBlank ' ') done spaceFuel fuel
      (by rw [Cursor.rest_skips, hc]; rfl) (by rw [Cursor.column_skips]; omega)
      (by rw [Cursor.column_skips]; omega) hbroken (by omega) (by omega)
    rw [readSpacing?_space hc, hread, hfold, Cursor.skips_skips, List.length_cons, Nat.add_comm 1]
    simp
  refine ⟨fun c before runFuel fuel hc hcolumn hrun hfuel hbefore => ?_,
    fun _ _ c s done spaceFuel fuel hc hcolumn _ hs hspace hfuel =>
      hspacing c s done spaceFuel fuel hc (Nat.le_succ_of_le hcolumn) hs hspace
        (Nat.le_of_lt hfuel)⟩
  obtain ⟨runFuel, rfl⟩ : ∃ n, runFuel = n + 1 := ⟨runFuel - 1, by omega⟩
  have hend : plainEnds? false c = some true := by
    unfold plainEnds?
    rw [Cursor.peek_of_rest hc]
    rfl
  refine ⟨before, c, by rw [readPlainRun?, hend], hbefore.resolve_right ?_, fun done => ?_⟩
  · rintro ⟨x, u, hx, hspace⟩
    exact hspace (List.cons.inj hx).1.symm
  · unfold afterPlainRun
    rw [Cursor.peek_of_rest hc, if_pos (.inl rfl), hspacing c {} _ _ _ hc hcolumn rfl
      (by rw [hc, List.length_append]; omega) hfuel]
    simp [Spacing.fold]

/-- Another character of a plain scalar is read in its run. -/
theorem PlainRest.readsPlain_cons {x : Char} (hrest : PlainRest gapBefore (x :: t))
    (hspace : x ≠ ' ') (h : ReadsPlain indent tail broken behind (isSpaceTab x) t) :
    ReadsPlain indent tail broken behind gapBefore (x :: t) := by
  have hrun : ∀ (c : Cursor) (before : Text) (runFuel fuel : Nat), c.rest = x :: t ++ tail →
      indent ≤ c.column + 1 → (x :: t).length < runFuel → (x :: t).length ≤ fuel + 1 →
      ∃ run after, readPlainRun? false runFuel before c = some (run, after) ∧ run ≠ [] ∧
        ∀ done, afterPlainRun indent fuel (run ++ done) after =
          some (done.reverse ++ (before.reverse ++ x :: t), broken,
            behind (c.skips (x :: t).length)) := by
    intro c before runFuel fuel hc hcolumn hrun hfuel
    rw [List.length_cons] at hrun hfuel
    obtain ⟨runFuel, rfl⟩ : ∃ n, runFuel = n + 1 := ⟨runFuel - 1, by omega⟩
    obtain ⟨run, after, hread, hne, hafter⟩ := h.run (c.skips 1) (x :: before) runFuel fuel
      (by rw [Cursor.rest_skips, hc]; rfl) (by rw [Cursor.column_skips]; omega) (by omega)
      (by omega) (.inl (by simp))
    refine ⟨run, after, ?_, hne, fun done => ?_⟩
    · rw [readPlainRun?, hrest.plainEnds? hspace hc, Cursor.peek_of_rest hc,
        Cursor.skip_eq_skips hc]
      exact hread
    · rw [hafter, Cursor.skips_skips, List.length_cons, Nat.add_comm 1]
      simp
  refine ⟨fun c before runFuel fuel hc hcolumn hlength hfuel _ =>
    hrun c before runFuel fuel hc hcolumn hlength (Nat.le_succ_of_le hfuel), ?_⟩
  intro hgap _ c s done spaceFuel fuel hc hcolumn hpos _ _ hfuel
  obtain ⟨fuel, rfl⟩ : ∃ n, fuel = n + 1 := ⟨fuel - 1, by omega⟩
  have hstop : isSpaceTab x = false ∧ isBreak x = false :=
    ⟨isSpaceTab_of_isShown (hrest.shown x (List.mem_cons_self ..)) hspace,
      hrest.oneLine x (List.mem_cons_self ..)⟩
  have hcomment : c.sees '#' = false := by
    have hmarks := hrest.marks
    rw [hgap, marksLater, Bool.and_true] at hmarks
    rw [Cursor.sees_of_rest hc]
    exact (Bool.or_eq_false_iff.mp (Bool.or_eq_false_iff.mp hmarks).1).2
  obtain ⟨run, after, hread, hne, hafter⟩ := hrun c [] (c.rest.length + 1) fuel hc
    (Nat.le_succ_of_le hcolumn)
    (by rw [hc, List.length_append]; omega) (by omega)
  rw [readSpacing?_stop hc (by rintro _ ⟨⟩; exact hstop), Option.bind_some,
    if_neg (Nat.not_lt.mpr hcolumn), readPlainFrom?_succ (Cursor.seesDocumentMark_of_column hpos)
      hcomment hread hne, List.append_assoc, hafter]
  simp

theorem PlainRest.readsPlain (h : PlainRest gapBefore t)
    (hends : EndsPlain indent tail broken behind) :
    ReadsPlain indent tail broken behind gapBefore t := by
  induction t generalizing gapBefore with
  | nil => exact .nil hends
  | cons x t ih =>
    by_cases hspace : x = ' '
    · subst hspace
      refine .space (ih h.tail) ?_
      rintro rfl
      exact h.ends rfl
    · exact h.readsPlain_cons hspace (ih h.tail)

/-- What ends a plain scalar is no mark of a document. -/
theorem EndsPlain.head? (h : EndsPlain indent tail broken behind) :
    ∀ y ∈ tail.head?, y ≠ '-' ∧ y ≠ '.' := by
  obtain ⟨hend, -⟩ := h (Cursor.ofText tail) rfl
  cases tail with
  | nil => simp
  | cons y tail =>
    rintro _ ⟨⟩
    constructor <;> rintro rfl <;> cases hend

/-- Where three characters of a kind stand, the text is one that is marked. -/
theorem seesTriple_plain {c : Cursor} {y : Char} (hne : t ≠ []) (hc : c.rest = t ++ tail)
    (hmarks : Text.startsWith t [y, y, y] = false) (htail : ∀ z ∈ tail.head?, z ≠ y) :
    c.seesTriple y = false := by
  rw [Bool.eq_false_iff]
  intro hsees
  simp only [Cursor.seesTriple, Bool.and_eq_true, decide_eq_true_eq, Cursor.peek, Cursor.ahead, hc]
    at hsees
  obtain ⟨⟨⟨⟨-, h0⟩, h1⟩, h2⟩, -⟩ := hsees
  rcases t with _ | ⟨a, _ | ⟨b, _ | ⟨d, t⟩⟩⟩
  · exact hne rfl
  · refine htail y ?_ rfl
    cases tail <;> simp_all
  · refine htail y ?_ rfl
    cases tail <;> simp_all
  · simp only [List.cons_append, List.head?_cons, List.getElem?_cons_succ, List.getElem?_cons_zero,
      Option.some.injEq] at h0 h1 h2
    subst h0 h1 h2
    simp [Text.startsWith] at hmarks

/-- What is known of a plain text. -/
structure PlainBegin (x : Char) (t : Text) : Prop where
  noSpace : x ≠ ' '
  first : marksFirst x t = false
  rest : PlainRest false (x :: t)
  dashes : Text.startsWith (x :: t) ['-', '-', '-'] = false
  dots : Text.startsWith (x :: t) ['.', '.', '.'] = false

theorem plainBegin_of_plainAllowed {x : Char} (h : plainAllowed (x :: t) = true) :
    PlainBegin x t := by
  simp only [plainAllowed, hasMarks, Bool.and_eq_true, Bool.not_eq_true', Bool.or_eq_false_iff,
    List.all_eq_true, List.any_eq_false] at h
  obtain ⟨⟨⟨⟨hspace, hlast⟩, hline⟩, hshown⟩, ⟨hdashes, hdots⟩, hfirst, hlater⟩ := h
  refine ⟨by simpa using hspace, hfirst, ⟨hshown, fun y hy => by simpa using hline y hy, ?_, ?_⟩,
    hdashes, hdots⟩
  · have hcolon : (decide (x = ':') && gapNext t) = false := by
      rw [Bool.eq_false_iff]
      intro hcolon
      obtain ⟨hx, hgap⟩ := Bool.and_eq_true_iff.mp hcolon
      obtain rfl := of_decide_eq_true hx
      rw [marksFirst, hgap] at hfirst
      cases hfirst
    rw [marksLater, hcolon, hlater, Bool.and_false]
    rfl
  · intro hend
    rw [hend] at hlast
    cases hlast

/-- **A plain text is read back** up to what ends it. -/
theorem readPlain?_plain {c : Cursor} (hplain : plainAllowed t = true) (hne : t ≠ [])
    (hends : EndsPlain indent tail broken behind) (hcolumn : indent ≤ c.column + 1)
    (hc : c.rest = t ++ tail) :
    readPlain? false indent c = some (t, broken, behind (c.skips t.length)) := by
  obtain ⟨x, u, rfl⟩ := List.exists_cons_of_ne_nil hne
  obtain ⟨hspace, hfirst, hrest, hdashes, hdots⟩ := plainBegin_of_plainAllowed hplain
  have hdocument : c.seesDocumentMark = false := by
    unfold Cursor.seesDocumentMark
    rw [seesTriple_plain hne hc hdashes fun z hz => (hends.head? z hz).1,
      seesTriple_plain hne hc hdots fun z hz => (hends.head? z hz).2]
    rfl
  have hcomment : c.sees '#' = false := by
    rw [Cursor.sees_of_rest hc, decide_eq_false_iff_not]
    rintro rfl
    cases hfirst
  obtain ⟨run, after, hread, hnonempty, hafter⟩ := (hrest.readsPlain hends).run c []
    (c.rest.length + 1) c.rest.length hc hcolumn (by rw [hc, List.length_append]; omega)
    (by rw [hc, List.length_append]; omega) (.inr ⟨x, u, rfl, hspace⟩)
  unfold readPlain?
  rw [readPlainFrom?_succ hdocument hcomment hread hnonempty, List.append_assoc, hafter]
  rfl

end NotePress.Yaml
