import NotePress.Yaml.Token

/-!
# Scanning quoted texts

What stands between quotes is made of parts that are read as a character each (`StandsFor`), of
spaces, and of line breaks with the indentation behind them, which is no part of the text
(`Quoted`). The reader takes a run of the first, then the spacing behind it, and so on.
`Quoted.reads` follows it through a text by induction on its parts, and says of each place
both how a run goes on there and how spacing does; `exists_readQuoted?` puts the quotes around it.
-/

namespace NotePress.Yaml

/-! ### Cursors -/

namespace Cursor

variable {c : Cursor}

@[simp] theorem rest_skips (c : Cursor) (n : Nat) : (c.skips n).rest = c.rest.drop n := rfl

@[simp] theorem line_skips (c : Cursor) (n : Nat) : (c.skips n).line = c.line := rfl

@[simp] theorem column_skips (c : Cursor) (n : Nat) : (c.skips n).column = c.column + n := rfl

theorem skips_skips (c : Cursor) (m n : Nat) : (c.skips m).skips n = c.skips (m + n) := by
  unfold skips
  simp only [List.drop_drop, List.take_add, Text.byteLength_append, Nat.add_assoc]

@[simp] theorem skips_zero (c : Cursor) : c.skips 0 = c := rfl

theorem skip_eq_skips {x : Char} {tail : Text} (h : c.rest = x :: tail) : c.skip = c.skips 1 := by
  unfold skip skips
  rw [h]
  simp

theorem peek_of_rest {x : Char} {tail : Text} (h : c.rest = x :: tail) : c.peek = some x := by
  unfold peek
  rw [h]
  rfl

theorem sees_of_rest {x y : Char} {tail : Text} (h : c.rest = x :: tail) :
    c.sees y = decide (x = y) := by
  unfold sees
  rw [peek_of_rest h]
  simp

/-- Behind the start of a line no mark of a document is seen. -/
theorem seesDocumentMark_of_column (h : 0 < c.column) : c.seesDocumentMark = false := by
  have hne : c.column ≠ 0 := Nat.ne_of_gt h
  simp [seesDocumentMark, seesTriple, hne]

/-- **A cursor behind a text**; a text of one line is as many places long as it has characters. -/
structure IsBehind (c' c : Cursor) (t : Text) : Prop where
  rest : c'.rest = c.rest.drop t.length
  line : c.line ≤ c'.line
  sameLine : t.any isBreak = false → c' = c.skips t.length

theorem isBehind_skips (c : Cursor) (t : Text) : (c.skips t.length).IsBehind c t :=
  ⟨rfl, Nat.le_refl _, fun _ => rfl⟩

theorem IsBehind.prepend {c' : Cursor} {t : Text} (u : Text)
    (h : c'.IsBehind (c.skips u.length) t) : c'.IsBehind c (u ++ t) where
  rest := by rw [h.rest, rest_skips, List.drop_drop, List.length_append]
  line := h.line
  sameLine hbreak := by
    rw [List.any_append, Bool.or_eq_false_iff] at hbreak
    rw [h.sameLine hbreak.2, skips_skips, List.length_append]

/-- A line feed, and a break that stands for itself, are taken as they are. -/
theorem takeBreak_of_rest {x : Char} {tail : Text} (h : c.rest = x :: tail)
    (hx : x = '\n' ∨ x = '\u2028' ∨ x = '\u2029') :
    c.takeBreak = ([x], ⟨tail, c.index + x.utf8Size, c.line + 1, 0⟩) := by
  unfold takeBreak
  rw [h]
  rcases hx with rfl | rfl | rfl <;> rfl

end Cursor

/-! ### What stands between quotes -/

/-- The quote that ends a text. -/
def quoteOf (single : Bool) : Char := if single then '\'' else '"'

/-- **A text is read as one character** inside of quotes. -/
structure StandsFor (single : Bool) (written : Text) (x : Char) : Prop where
  begins : ∃ y rest, written = y :: rest ∧ isSpaceTab y = false ∧ isBreak y = false
  run : ∀ {c : Cursor} {more done : Text} {fuel : Nat}, c.rest = written ++ more →
    readQuotedRun? single (fuel + 1) done c =
      readQuotedRun? single fuel (x :: done) (c.skips written.length)

/-- A character that is no gap, no quote and no escape stands for itself. -/
theorem StandsFor.itself {single : Bool} {x : Char}
    (hgap : isSpaceTab x = false ∧ isBreak x = false)
    (hquote : x ≠ quoteOf single) (hescape : single = false → x ≠ '\\') :
    StandsFor single [x] x where
  begins := ⟨x, [], rfl, hgap⟩
  run {c more done fuel} hc := by
    rw [readQuotedRun?, Cursor.peek_of_rest hc, List.length_singleton, ← Cursor.skip_eq_skips hc]
    cases single with
    | false => simp [hgap, show x ≠ '"' from hquote, hescape rfl]
    | true => simp [hgap, show x ≠ '\'' from hquote]

/-- A single quote is doubled in single quotes. -/
theorem standsFor_doubled : StandsFor true ['\'', '\''] '\'' where
  begins := ⟨'\'', ['\''], rfl, rfl, rfl⟩
  run {c more done fuel} hc := by
    have hahead : c.ahead 1 = some '\'' := by unfold Cursor.ahead; rw [hc]; rfl
    rw [readQuotedRun?, Cursor.peek_of_rest hc]
    simp [isSpaceTab, isBreak, hahead]

/-- An escape that is read as a character stands for it. -/
theorem StandsFor.ofEscape {x mark : Char} (digits : Text) (hmark : isBreak mark = false)
    (hread : ∀ (c : Cursor) (more : Text), c.rest = mark :: (digits ++ more) →
      readEscape? c = some (x, c.skips (digits.length + 1))) :
    StandsFor false ('\\' :: mark :: digits) x where
  begins := ⟨'\\', _, rfl, rfl, rfl⟩
  run {c more done fuel} hc := by
    have hrest : (c.skips 1).rest = mark :: (digits ++ more) := by
      rw [Cursor.rest_skips, hc]
      rfl
    have hahead : c.ahead 1 = some mark := by unfold Cursor.ahead; rw [hc]; rfl
    have hcount : 1 + (digits.length + 1) = digits.length + 2 := by omega
    rw [readQuotedRun?, Cursor.peek_of_rest hc]
    simp only [hahead, isBreakAt, hmark, Cursor.skip_eq_skips hc, hread _ _ hrest,
      Cursor.skips_skips, hcount]
    simp [isSpaceTab, isBreak]

theorem readHex?_append (digits rest : Text) :
    readHex? digits.length (digits ++ rest) = readHex? digits.length digits := by
  unfold readHex?
  rw [List.take_left, List.take_length]

theorem charOf?_toNat (c : Char) : charOf? c.toNat = some c := by
  unfold charOf?
  rw [if_pos (show c.toNat.isValidChar from c.valid), Char.ofNat_toNat]

/-- The digits of a character's number stand for it, behind the mark for so many digits. -/
theorem StandsFor.ofNumber {x mark : Char} {digits : Text}
    (hmark : (mark, digits.length) ∈ [('x', 2), ('u', 4), ('U', 8)])
    (hread : readHex? digits.length digits = some x.toNat) :
    StandsFor false ('\\' :: mark :: digits) x := by
  have hkind : isBreak mark = false := by
    simp only [List.mem_cons, Prod.mk.injEq, List.not_mem_nil, or_false] at hmark
    rcases hmark with ⟨rfl, -⟩ | ⟨rfl, -⟩ | ⟨rfl, -⟩ <;> rfl
  refine .ofEscape digits hkind fun c more hc => ?_
  have hrest : c.skip.rest = digits ++ more := by
    rw [Cursor.skip_eq_skips hc, Cursor.rest_skips, hc]
    rfl
  have hnumber : readHex? digits.length c.skip.rest = some x.toNat := by
    rw [hrest, readHex?_append, hread]
  rw [readEscape?, Cursor.peek_of_rest hc]
  simp only [List.mem_cons, Prod.mk.injEq, List.not_mem_nil, or_false] at hmark
  rcases hmark with ⟨rfl, hlength⟩ | ⟨rfl, hlength⟩ | ⟨rfl, hlength⟩ <;>
    rw [hlength] at hnumber ⊢ <;>
    simp only [hnumber, Option.bind_some, charOf?_toNat, Option.map_some]

/-- A break that stands for itself between quotes. -/
def isKeptBreak (x : Char) : Bool := x = '\u2028' || x = '\u2029'

/-- **What stands between quotes**, and the text it is read as; `broken` says that a line was
broken just before. -/
inductive Quoted (single : Bool) : (broken : Bool) → Text → Text → Prop where
  | nil : Quoted single false [] []
  | char {u w t : Text} {x : Char} (hx : StandsFor single u x) (h : Quoted single false w t) :
      Quoted single false (u ++ w) (x :: t)
  | space {w t : Text} (hbreak : ∀ y ∈ w.head?, isBreak y = false) (h : Quoted single false w t) :
      Quoted single false (' ' :: w) (' ' :: t)
  | lineBreak {w t : Text} {x : Char} (broken : Bool) (hx : isKeptBreak x = true)
      (h : Quoted single true w t) : Quoted single broken (x :: w) (x :: t)
  | indented {w t : Text} (n : Nat) (hgap : ∀ y ∈ w.head?, isSpaceTab y = false ∧ isBreak y = false)
      (h : Quoted single false w t) : Quoted single true (List.replicate (n + 1) ' ' ++ w) t

variable {single : Bool} {tail done : Text} {c : Cursor}

/-! ### Reading -/

/-- How the reader goes on behind a run. -/
def afterRun (single : Bool) (fuel : Nat) (p : Text × Bool × Cursor) : Option (Text × Cursor) :=
  if p.2.2.sees (quoteOf single) then some (p.1.reverse, p.2.2.skip)
  else (readSpacing? 0 (p.2.2.rest.length + 1) { broken := p.2.1 } p.2.2).bind fun q =>
    readQuotedFrom? single fuel (q.1.fold.reverse ++ p.1) q.2

theorem readQuotedFrom?_succ {fuel : Nat} (hcolumn : 0 < c.column) (hrest : c.rest ≠ []) :
    readQuotedFrom? single (fuel + 1) done c =
      (readQuotedRun? single (c.rest.length + 1) done c).bind (afterRun single fuel) := by
  have hpeek : c.peek.isNone = false := by
    unfold Cursor.peek
    cases h : c.rest with
    | nil => exact absurd h hrest
    | cons => rfl
  rw [readQuotedFrom?, Cursor.seesDocumentMark_of_column hcolumn, hpeek]
  simp only [Bool.false_eq_true, or_self, if_false]
  cases readQuotedRun? single (c.rest.length + 1) done c with
  | none => rfl
  | some p =>
    obtain ⟨done', escapedBreak, c'⟩ := p
    simp only [Option.bind_some, afterRun, quoteOf]
    cases readSpacing? 0 (c'.rest.length + 1) { broken := escapedBreak } c' <;> rfl

/-- At a gap a run ends. -/
theorem readQuotedRun?_gap {x : Char} (hc : c.rest = x :: tail)
    (hx : isSpaceTab x = true ∨ isBreak x = true) (fuel : Nat) :
    readQuotedRun? single fuel done c = some (done, false, c) := by
  cases fuel with
  | zero => rfl
  | succ fuel =>
    rw [readQuotedRun?, Cursor.peek_of_rest hc]
    simp only [hx, if_true]

/-- At the closing quote a run ends. -/
theorem readQuotedRun?_quote (hc : c.rest = quoteOf single :: tail)
    (htail : single = true → tail.head? ≠ some '\'') (fuel : Nat) :
    readQuotedRun? single fuel done c = some (done, false, c) := by
  cases fuel with
  | zero => rfl
  | succ fuel =>
    rw [readQuotedRun?, Cursor.peek_of_rest hc]
    cases single with
    | false => rfl
    | true =>
      have hahead : c.ahead 1 ≠ some '\'' := by
        unfold Cursor.ahead
        rw [hc]
        cases tail with
        | nil => simp
        | cons y tail => simpa using htail rfl
      simp [quoteOf, isSpaceTab, isBreak, hahead]

/-- Where no gap stands, spacing ends. -/
theorem readSpacing?_stop {s : Spacing} (hc : c.rest = tail)
    (htail : ∀ x ∈ tail.head?, isSpaceTab x = false ∧ isBreak x = false) (limit fuel : Nat) :
    readSpacing? limit fuel s c = some (s, c) := by
  cases fuel with
  | zero => rfl
  | succ fuel =>
    cases tail with
    | nil =>
      have hpeek : c.peek = none := by unfold Cursor.peek; rw [hc]; rfl
      rw [readSpacing?, hpeek]
    | cons x tail =>
      rw [readSpacing?, Cursor.peek_of_rest hc]
      simp only [htail x rfl]
      rfl

theorem Spacing.addBlank_of_unbroken {s : Spacing} (h : s.broken = false) :
    (s.addBlank ' ').broken = false ∧ (s.addBlank ' ').fold = s.fold ++ [' '] := by
  have hblank : s.addBlank ' ' = { s with blanks := s.blanks ++ [' '] } := by
    unfold Spacing.addBlank
    rw [h]
    rfl
  rw [hblank]
  exact ⟨h, by simp [Spacing.fold, h]⟩

/-- A space is added to spacing. -/
theorem readSpacing?_space {s : Spacing} (hc : c.rest = ' ' :: tail) (limit fuel : Nat) :
    readSpacing? limit (fuel + 1) s c = readSpacing? limit fuel (s.addBlank ' ') (c.skips 1) := by
  rw [readSpacing?, Cursor.peek_of_rest hc, ← Cursor.skip_eq_skips hc]
  simp [isSpaceTab]

/-- Indentation behind a break is no part of spacing. -/
theorem readSpacing?_indentation {s : Spacing} {n fuel : Nat} (hbroken : s.broken = true)
    (hc : c.rest = List.replicate n ' ' ++ tail) (limit : Nat) :
    readSpacing? limit (n + fuel) s c = readSpacing? limit fuel s (c.skips n) := by
  induction n generalizing c with
  | zero =>
    rw [Nat.zero_add]
    rfl
  | succ n ih =>
    have hsame : s.addBlank ' ' = s := by
      unfold Spacing.addBlank
      rw [hbroken]
      rfl
    rw [Nat.add_right_comm, readSpacing?_space hc, hsame, ih (by rw [Cursor.rest_skips, hc]; rfl),
      Cursor.skips_skips, Nat.add_comm 1]

/-- A break is added to spacing. -/
theorem readSpacing?_break {x : Char} {s : Spacing} (hc : c.rest = x :: tail)
    (hx : isBreak x = true) (limit fuel : Nat) :
    readSpacing? limit (fuel + 1) s c =
      readSpacing? limit fuel (s.addBreak c.takeBreak.1) c.takeBreak.2 := by
  have hgap : isSpaceTab x = false := by
    cases hgap : isSpaceTab x with
    | false => rfl
    | true =>
      have hx' : x = ' ' ∨ x = '\t' := by simpa [isSpaceTab] using hgap
      rcases hx' with rfl | rfl <;> cases hx
  rw [readSpacing?, Cursor.peek_of_rest hc]
  simp only [hgap, hx]
  rfl

/-- Spacing that may have been read in front of what is left. -/
def Spacing.Precedes (s : Spacing) (broken : Bool) (w : Text) : Prop :=
  if broken then s.broken = true ∧ s.firstBreak ≠ ['\n']
  else ∀ y ∈ w.head?, (isSpaceTab y = true → s.broken = false) ∧ (isBreak y = true → s = {})

/-- **How the reader goes on at a place between quotes**: in a run, and in spacing. -/
structure Reads (single : Bool) (tail : Text) (broken : Bool) (w t : Text) : Prop where
  run : broken = false → ∀ (c : Cursor) (done : Text) (runFuel fuel : Nat),
    c.rest = w ++ quoteOf single :: tail → 0 < c.column → w.length < runFuel → w.length ≤ fuel →
    ∃ c', (readQuotedRun? single runFuel done c).bind (afterRun single fuel) =
      some (done.reverse ++ t, c') ∧ c'.IsBehind c (w ++ [quoteOf single])
  spacing : ∀ (c : Cursor) (done : Text) (s : Spacing) (spaceFuel fuel : Nat),
    c.rest = w ++ quoteOf single :: tail → s.Precedes broken w → (broken = false → 0 < c.column) →
    w.length < spaceFuel → w.length < fuel →
    ∃ c', ((readSpacing? 0 spaceFuel s c).bind fun q =>
        readQuotedFrom? single fuel (q.1.fold.reverse ++ done) q.2) =
      some (done.reverse ++ (s.fold ++ t), c') ∧ c'.IsBehind c (w ++ [quoteOf single])

variable {broken : Bool} {w t u : Text} {x : Char}

theorem isGap_quoteOf (single : Bool) :
    isSpaceTab (quoteOf single) = false ∧ isBreak (quoteOf single) = false := by
  cases single <;> exact ⟨rfl, rfl⟩

/-- Where no gap stands, spacing ends and a run begins. -/
theorem Reads.ofRun
    (hrun : ∀ (c : Cursor) (done : Text) (runFuel fuel : Nat),
      c.rest = w ++ quoteOf single :: tail → 0 < c.column → w.length < runFuel → w.length ≤ fuel →
      ∃ c', (readQuotedRun? single runFuel done c).bind (afterRun single fuel) =
        some (done.reverse ++ t, c') ∧ c'.IsBehind c (w ++ [quoteOf single]))
    (hstop : ∀ y ∈ w.head?, isSpaceTab y = false ∧ isBreak y = false) :
    Reads single tail false w t where
  run _ := hrun
  spacing c done s spaceFuel fuel hc _ hcolumn _ hfuel := by
    have hgap : ∀ y ∈ (w ++ quoteOf single :: tail).head?,
        isSpaceTab y = false ∧ isBreak y = false := by
      cases w with
      | nil => rintro _ ⟨⟩; exact isGap_quoteOf single
      | cons y w => exact hstop
    have hrest : c.rest ≠ [] := by rw [hc]; simp
    obtain ⟨fuel, rfl⟩ : ∃ n, fuel = n + 1 := ⟨fuel - 1, by omega⟩
    obtain ⟨c', hread, hbehind⟩ := hrun c (s.fold.reverse ++ done) (c.rest.length + 1) fuel hc
      (hcolumn rfl) (show w.length < c.rest.length + 1 by rw [hc, List.length_append]; omega)
      (Nat.le_of_lt_succ hfuel)
    refine ⟨c', ?_, hbehind⟩
    rw [readSpacing?_stop hc hgap, Option.bind_some,
      readQuotedFrom?_succ (hcolumn rfl) hrest, hread]
    simp

/-- Where a gap stands, a run ends and spacing begins. -/
theorem Reads.ofSpacing
    (hspacing : ∀ (c : Cursor) (done : Text) (s : Spacing) (spaceFuel fuel : Nat),
      c.rest = w ++ quoteOf single :: tail → s.Precedes broken w → (broken = false → 0 < c.column) →
      w.length < spaceFuel → w.length ≤ fuel →
      ∃ c', ((readSpacing? 0 spaceFuel s c).bind fun q =>
          readQuotedFrom? single fuel (q.1.fold.reverse ++ done) q.2) =
        some (done.reverse ++ (s.fold ++ t), c') ∧ c'.IsBehind c (w ++ [quoteOf single]))
    {y : Char} {v : Text} (hw : w = y :: v) (hy : isSpaceTab y = true ∨ isBreak y = true) :
    Reads single tail broken w t where
  run hbroken c done runFuel fuel hc hcolumn _ hfuel := by
    subst hw hbroken
    have hopen : c.sees (quoteOf single) = false := by
      rw [Cursor.sees_of_rest hc, decide_eq_false_iff_not]
      rintro rfl
      have hgap := isGap_quoteOf single
      rcases hy with hy | hy
      · exact absurd hy (by rw [hgap.1]; decide)
      · exact absurd hy (by rw [hgap.2]; decide)
    have hprecedes : Spacing.Precedes {} false (y :: v) := fun z _ => ⟨fun _ => rfl, fun _ => rfl⟩
    obtain ⟨c', hread, hbehind⟩ := hspacing c done {} (c.rest.length + 1) fuel hc hprecedes
      (fun _ => hcolumn)
      (show (y :: v).length < c.rest.length + 1 by rw [hc, List.length_append]; omega) hfuel
    refine ⟨c', ?_, hbehind⟩
    rw [readQuotedRun?_gap hc hy, Option.bind_some]
    simp only [afterRun, hopen, Bool.false_eq_true, if_false, hread]
    rfl
  spacing c done s spaceFuel fuel hc hs hcolumn hspace hfuel :=
    hspacing c done s spaceFuel fuel hc hs hcolumn hspace (Nat.le_of_lt hfuel)

theorem Reads.nil (htail : single = true → tail.head? ≠ some '\'') :
    Reads single tail false [] [] := by
  refine .ofRun (fun c done runFuel fuel hc hcolumn _ _ => ?_) (by simp)
  have hclose : c.sees (quoteOf single) = true := by rw [Cursor.sees_of_rest hc, decide_eq_true rfl]
  refine ⟨c.skip, ?_, ?_⟩
  · rw [readQuotedRun?_quote hc htail, Option.bind_some]
    simp [afterRun, hclose]
  · rw [Cursor.skip_eq_skips hc]
    exact Cursor.isBehind_skips c [quoteOf single]

theorem Reads.char (hx : StandsFor single u x) (h : Reads single tail false w t) :
    Reads single tail false (u ++ w) (x :: t) := by
  obtain ⟨y, v, hu, hgap⟩ := hx.begins
  refine .ofRun (fun c done runFuel fuel hc hcolumn hrun hfuel => ?_) (by
    rw [hu]
    rintro _ ⟨⟩
    exact hgap)
  have hlength : 1 ≤ u.length := by rw [hu, List.length_cons]; omega
  rw [List.length_append] at hrun hfuel
  rw [List.append_assoc] at hc
  obtain ⟨runFuel, rfl⟩ : ∃ n, runFuel = n + 1 := ⟨runFuel - 1, by omega⟩
  obtain ⟨c', hread, hbehind⟩ := h.run rfl (c.skips u.length) (x :: done) runFuel fuel
    (by rw [Cursor.rest_skips, hc, List.drop_left])
    (by rw [Cursor.column_skips]; omega) (by omega) (by omega)
  refine ⟨c', ?_, by simpa using hbehind.prepend u⟩
  rw [hx.run hc, hread]
  simp

theorem Reads.space (hbreak : ∀ y ∈ w.head?, isBreak y = false)
    (h : Reads single tail false w t) : Reads single tail false (' ' :: w) (' ' :: t) := by
  refine .ofSpacing (fun c done s spaceFuel fuel hc hs _ hspace hfuel => ?_) rfl (.inl rfl)
  rw [List.length_cons] at hspace hfuel
  obtain ⟨spaceFuel, rfl⟩ : ∃ n, spaceFuel = n + 1 := ⟨spaceFuel - 1, by omega⟩
  obtain ⟨hbroken, hfold⟩ := s.addBlank_of_unbroken ((hs ' ' rfl).1 rfl)
  have hprecedes : (s.addBlank ' ').Precedes false w := fun y hy =>
    ⟨fun _ => hbroken, fun hyes => absurd hyes (by rw [hbreak y hy]; decide)⟩
  obtain ⟨c', hread, hbehind⟩ := h.spacing (c.skips 1) done (s.addBlank ' ') spaceFuel fuel
    (by rw [Cursor.rest_skips, hc]; rfl) hprecedes
    (fun _ => by rw [Cursor.column_skips]; omega) (by omega) (by omega)
  refine ⟨c', ?_, hbehind.prepend [' ']⟩
  rw [readSpacing?_space hc, hread, hfold]
  simp

theorem Reads.lineBreak (hx : isKeptBreak x = true) (h : Reads single tail true w t) :
    Reads single tail broken (x :: w) (x :: t) := by
  have hx : x = '\u2028' ∨ x = '\u2029' := by simpa [isKeptBreak] using hx
  have hkind : isBreak x = true ∧ [x] ≠ ['\n'] := by rcases hx with rfl | rfl <;> decide
  refine .ofSpacing (fun c done s spaceFuel fuel hc hs _ hspace hfuel => ?_) rfl (.inr hkind.1)
  rw [List.length_cons] at hspace hfuel
  obtain ⟨spaceFuel, rfl⟩ : ∃ n, spaceFuel = n + 1 := ⟨spaceFuel - 1, by omega⟩
  have hadd : (s.addBreak [x]).Precedes true w ∧ (s.addBreak [x]).fold = s.fold ++ [x] := by
    cases broken with
    | false =>
      obtain rfl := (hs x rfl).2 hkind.1
      exact ⟨⟨rfl, hkind.2⟩, by simp [Spacing.addBreak, Spacing.fold, hkind.2]⟩
    | true =>
      obtain ⟨hbroken, hfirst⟩ := hs
      simp [Spacing.addBreak, Spacing.fold, Spacing.Precedes, hbroken, hfirst]
  have hbreak := @Cursor.takeBreak_of_rest c x (w ++ quoteOf single :: tail) hc (.inr hx)
  obtain ⟨c', hread, hbehind⟩ := h.spacing
    ⟨w ++ quoteOf single :: tail, c.index + x.utf8Size, c.line + 1, 0⟩ done (s.addBreak [x])
    spaceFuel fuel rfl hadd.1 nofun
    (by omega) (by omega)
  refine ⟨c', ?_, ⟨?_, Nat.le_of_succ_le hbehind.line, fun hnone => ?_⟩⟩
  · rw [readSpacing?_break hc hkind.1, hbreak, hread, hadd.2]
    simp
  · rw [hbehind.rest, hc]
    rfl
  · rw [List.cons_append, List.any_cons, hkind.1] at hnone
    cases hnone

theorem Reads.indented {n : Nat} (hgap : ∀ y ∈ w.head?, isSpaceTab y = false ∧ isBreak y = false)
    (h : Reads single tail false w t) :
    Reads single tail true (List.replicate (n + 1) ' ' ++ w) t := by
  refine ⟨nofun, fun c done s spaceFuel fuel hc hs _ hspace hfuel => ?_⟩
  rw [List.length_append, List.length_replicate] at hspace hfuel
  rw [List.append_assoc] at hc
  obtain ⟨spaceFuel, rfl⟩ : ∃ m, spaceFuel = n + 1 + m := ⟨spaceFuel - (n + 1), by omega⟩
  have hprecedes : s.Precedes false w := fun y hy =>
    ⟨fun hyes => absurd hyes (by rw [(hgap y hy).1]; decide),
      fun hyes => absurd hyes (by rw [(hgap y hy).2]; decide)⟩
  obtain ⟨c', hread, hbehind⟩ := h.spacing (c.skips (n + 1)) done s spaceFuel fuel
    (by rw [Cursor.rest_skips, hc, List.drop_left' (by simp)]) hprecedes
    (fun _ => by rw [Cursor.column_skips]; omega) (by omega) (by omega)
  refine ⟨c', ?_, ?_⟩
  · rw [readSpacing?_indentation hs.1 hc, hread]
  · rw [List.append_assoc]
    exact Cursor.IsBehind.prepend _ (by rwa [List.length_replicate])

/-- **What stands between quotes is read** at each of its places. -/
theorem Quoted.reads (h : Quoted single broken w t)
    (htail : single = true → tail.head? ≠ some '\'') : Reads single tail broken w t := by
  induction h with
  | nil => exact .nil htail
  | char hx _ ih => exact ih.char hx
  | space hbreak _ ih => exact ih.space hbreak
  | lineBreak _ hx _ ih => exact ih.lineBreak hx
  | indented _ hgap _ ih => exact ih.indented hgap

/-- **A text in quotes is read**, and the cursor stands behind it. -/
theorem exists_readQuoted? (h : Quoted single false w t)
    (htail : single = true → tail.head? ≠ some '\'')
    (hc : c.rest = quoteOf single :: (w ++ quoteOf single :: tail)) :
    ∃ c', readQuoted? single c = some (t, c') ∧
      c'.IsBehind c (quoteOf single :: (w ++ [quoteOf single])) := by
  have hrest : (c.skips 1).rest = w ++ quoteOf single :: tail := by rw [Cursor.rest_skips, hc]; rfl
  have hcolumn : 0 < (c.skips 1).column := Nat.succ_pos _
  have hlength : w.length < c.rest.length := by
    rw [hc, List.length_cons, List.length_append]
    omega
  obtain ⟨c', hread, hbehind⟩ := (h.reads htail).run rfl (c.skips 1) []
    ((c.skips 1).rest.length + 1) c.rest.length hrest hcolumn
    (show w.length < (c.skips 1).rest.length + 1 by rw [hrest, List.length_append]; omega)
    (Nat.le_of_lt hlength)
  refine ⟨c', ?_, hbehind.prepend [quoteOf single]⟩
  unfold readQuoted?
  rw [Cursor.skip_eq_skips hc, readQuotedFrom?_succ hcolumn (by rw [hrest]; simp), hread]
  rfl

/-- A text whose characters are each written in a way that is read as it, a space as itself. -/
theorem quoted_flatMap {escape : Char → Text} (hspace : escape ' ' = [' '])
    (h : ∀ x ∈ t, x ≠ ' ' → StandsFor single (escape x) x) :
    Quoted single false (t.flatMap escape) t := by
  induction t with
  | nil => exact .nil
  | cons x t ih =>
    obtain ⟨hx, ht⟩ := List.forall_mem_cons.mp h
    rw [List.flatMap_cons]
    by_cases hxspace : x = ' '
    · subst hxspace
      rw [hspace]
      refine .space ?_ (ih ht)
      cases t with
      | nil => simp
      | cons y t =>
        rw [List.flatMap_cons]
        by_cases hy : y = ' '
        · subst hy
          rw [hspace]
          rintro _ ⟨⟩
          rfl
        · obtain ⟨z, v, hz, hgap⟩ := (ht y (List.mem_cons_self ..) hy).begins
          rw [hz]
          rintro _ ⟨⟩
          exact hgap.2
    · exact .char (hx hxspace) (ih ht)

end NotePress.Yaml
