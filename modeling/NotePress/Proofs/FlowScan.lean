import NotePress.Json.Writer
import NotePress.Proofs.Digits
import NotePress.Proofs.QuotedScan

/-!
# Scanning JSON as YAML

JSON escapes a quote, a backslash and the controls. Whatever else may stand in a YAML text and
breaks no line is taken as it is, so a `Legible` text is read back from its quotes
(`readQuoted?_writeText`).

What JSON writes without quotes is made of letters, digits, points and signs, and is no mark
of a document (`Bare`). It ends at the gap or the mark behind it (`exists_readPlain?_bare`).
-/

namespace NotePress.Yaml

/-! ### Quoted texts -/

/-- **A text that YAML takes as JSON writes it**: every character may stand in a YAML text, and none
but those that JSON escapes breaks a line. -/
def Legible (t : Text) : Prop :=
  ∀ c ∈ t, c.toNat < 0x20 ∨ (isAllowed c = true ∧ isBreak c = false)

instance (t : Text) : Decidable (Legible t) := List.decidableBAll _ t

theorem readHex?_of_controls : ∀ n < 0x20,
    readHex? 4 ['0', '0', Json.hexDigit (n / 16), Json.hexDigit n] = some n := by
  decide

/-- The characters that JSON escapes by a mark, with their marks. -/
def markedEscapes : List (Char × Char) :=
  [('"', '"'), ('\\', '\\'), ('\x08', 'b'), ('\x0c', 'f'), ('\n', 'n'), ('\r', 'r'), ('\t', 't')]

theorem readEscape?_of_mem {x mark : Char} (h : (x, mark) ∈ markedEscapes) :
    Json.escapeChar x = ['\\', mark] ∧ isBreak mark = false ∧
      ∀ c : Cursor, c.peek = some mark → readEscape? c = some (x, c.skip) := by
  unfold markedEscapes at h
  simp only [List.mem_cons, Prod.mk.injEq, List.not_mem_nil, or_false] at h
  rcases h with ⟨rfl, rfl⟩ | ⟨rfl, rfl⟩ | ⟨rfl, rfl⟩ | ⟨rfl, rfl⟩ | ⟨rfl, rfl⟩ | ⟨rfl, rfl⟩ |
    ⟨rfl, rfl⟩ <;> exact ⟨rfl, rfl, fun c hc => by rw [readEscape?, hc]; rfl⟩

/-- Other characters are escaped by their number, or stand as they are. -/
theorem escapeChar_of_not_mem {x : Char} (h : ∀ mark, (x, mark) ∉ markedEscapes) :
    Json.escapeChar x = (if x.toNat < 0x20 then
      ['\\', 'u', '0', '0', Json.hexDigit (x.toNat / 16), Json.hexDigit x.toNat] else [x]) ∧
        x ≠ '"' ∧ x ≠ '\\' ∧ x ≠ '\t' := by
  have hne : ∀ p ∈ markedEscapes, x ≠ p.1 := by
    rintro ⟨y, mark⟩ hp rfl
    exact h mark hp
  simp only [markedEscapes, List.forall_mem_cons, List.not_mem_nil, false_implies, implies_true,
    and_true] at hne
  obtain ⟨hquote, hslash, hb, hf, hn, hr, ht⟩ := hne
  refine ⟨?_, hquote, hslash, ht⟩
  unfold Json.escapeChar
  simp only [hquote, hslash, hb, hf, hn, hr, ht, if_false]

/-- **An escaped character is read.** -/
theorem standsFor_escapeChar {x : Char}
    (hx : x.toNat < 0x20 ∨ (isAllowed x = true ∧ isBreak x = false)) (hspace : x ≠ ' ') :
    StandsFor false (Json.escapeChar x) x := by
  by_cases hmarked : ∃ mark, (x, mark) ∈ markedEscapes
  · obtain ⟨mark, hmem⟩ := hmarked
    obtain ⟨hescape, hmark, hread⟩ := readEscape?_of_mem hmem
    rw [hescape]
    refine .ofEscape [] hmark fun c more hc => ?_
    rw [hread c (Cursor.peek_of_rest hc), Cursor.skip_eq_skips hc]
    rfl
  · obtain ⟨hescape, hquote, hslash, htab⟩ := escapeChar_of_not_mem (not_exists.mp hmarked)
    rw [hescape]
    split
    · rename_i hcontrol
      exact .ofNumber (by simp) (readHex?_of_controls _ hcontrol)
    · rename_i hcontrol
      exact .itself ⟨by simp [isSpaceTab, hspace, htab], (hx.resolve_left hcontrol).2⟩ hquote
        fun _ => hslash

/-- What JSON writes of a character may stand in a YAML text, and breaks no line. -/
theorem isAllowed_of_mem_escapeChar {x y : Char}
    (hx : x.toNat < 0x20 ∨ (isAllowed x = true ∧ isBreak x = false))
    (hy : y ∈ Json.escapeChar x) : isAllowed y = true ∧ isBreak y = false := by
  by_cases hmarked : ∃ mark, (x, mark) ∈ markedEscapes
  · obtain ⟨mark, hmem⟩ := hmarked
    have hmarks : ∀ p ∈ markedEscapes, isAllowed p.2 = true ∧ isBreak p.2 = false := by decide
    rw [(readEscape?_of_mem hmem).1] at hy
    rcases List.mem_cons.mp hy with rfl | hy
    · decide
    · rw [List.mem_singleton.mp hy]
      exact hmarks (x, mark) hmem
  · rw [(escapeChar_of_not_mem (not_exists.mp hmarked)).1] at hy
    split at hy
    · have hdigits : ∀ n < 16,
          isAllowed (Nat.digitChar n) = true ∧ isBreak (Nat.digitChar n) = false :=
        by decide
      have hdigit : ∀ n, isAllowed (Json.hexDigit n) = true ∧ isBreak (Json.hexDigit n) = false :=
        fun n => hdigits _ (Nat.mod_lt _ (by decide))
      simp only [List.mem_cons, List.not_mem_nil, or_false] at hy
      rcases hy with rfl | rfl | rfl | rfl | rfl | rfl
      all_goals first | exact hdigit _ | decide
    · rename_i hcontrol
      rw [List.mem_singleton.mp hy]
      exact hx.resolve_left hcontrol

theorem isAllowed_of_mem_writeText {t : Text} (ht : Legible t) {y : Char}
    (hy : y ∈ Json.writeText t) : isAllowed y = true ∧ isBreak y = false := by
  have hwritten : Json.writeText t = '"' :: (t.flatMap Json.escapeChar ++ ['"']) := rfl
  rw [hwritten, List.mem_cons, List.mem_append, List.mem_singleton, List.mem_flatMap] at hy
  rcases hy with rfl | ⟨x, hx, hy⟩ | rfl
  · decide
  · exact isAllowed_of_mem_escapeChar (ht x hx) hy
  · decide

/-- **A text in quotes is read** as it was written. -/
theorem readQuoted?_writeText {t tail : Text} {c : Cursor} (ht : Legible t)
    (hc : c.rest = Json.writeText t ++ tail) :
    readQuoted? false c = some (t, c.skips (Json.writeText t).length) := by
  have hquoted : Quoted false false (t.flatMap Json.escapeChar) t :=
    quoted_flatMap rfl fun x hx => standsFor_escapeChar (ht x hx)
  have hwritten : Json.writeText t = '"' :: (t.flatMap Json.escapeChar ++ ['"']) := rfl
  obtain ⟨c', hread, hbehind⟩ := @exists_readQuoted? false tail c _ t hquoted nofun
    (by rw [hc, hwritten]; simp [quoteOf])
  have hline : (Json.writeText t).any isBreak = false := by
    rw [List.any_eq_false]
    exact fun y hy => by simp [(isAllowed_of_mem_writeText ht hy).2]
  rw [hread, hwritten, hbehind.sameLine hline]
  rfl

/-! ### Bare words -/

/-- Blanks and line breaks as they stand between the parts of a JSON text. -/
def IsGap (gap : Text) : Prop := ∀ c ∈ gap, c = ' ' ∨ c = '\n'

theorem isGap_nil : IsGap [] := nofun

/-- What may follow on a value in JSON, behind a gap. -/
def Follows (x : Char) : Prop := x = ',' ∨ x = ']' ∨ x = '\x7d'

/-- A character of a number or of a name such as `null`. -/
def isBareChar (c : Char) : Bool := c.isAlphanum || c = '.' || c = '+' || c = '-'

/-- A number or a name such as `null`. -/
structure Bare (w : Text) : Prop where
  chars : ∀ c ∈ w, isBareChar c = true
  begins : ∃ x rest, w = x :: rest ∧
    (x.isAlphanum = true ∨ x = '-' ∧ ∃ y more, rest = y :: more ∧ y.isAlphanum = true)

/-- A character of a bare word is not among others. -/
theorem not_mem_of_isBareChar {x : Char} (hx : isBareChar x = true) {others : List Char}
    (h : others.any isBareChar = false) : x ∉ others := fun hmem =>
  List.any_eq_false.mp h x hmem hx

theorem isBreak_of_isBareChar {x : Char} (hx : isBareChar x = true) : isBreak x = false := by
  have hmem := @not_mem_of_isBareChar x hx ['\r', '\n', '\u0085', '\u2028', '\u2029'] (by decide)
  simpa [isBreak, and_assoc] using hmem

theorem isSpaceTab_of_isBareChar {x : Char} (hx : isBareChar x = true) : isSpaceTab x = false := by
  have hmem := @not_mem_of_isBareChar x hx [' ', '\t'] (by decide)
  simpa [isSpaceTab] using hmem

theorem toNat_of_isBareChar {x : Char} (hx : isBareChar x = true) :
    0x20 ≤ x.toNat ∧ x.toNat ≤ 0x7E := by
  simp only [isBareChar, Bool.or_eq_true, decide_eq_true_eq] at hx
  rcases hx with ((hx | rfl) | rfl) | rfl
  · have hbounds := toNat_of_isAlphanum hx
    omega
  all_goals decide

theorem plainEnds?_of_isBareChar {c : Cursor} {x : Char} {rest : Text} (hc : c.rest = x :: rest)
    (hx : isBareChar x = true) : plainEnds? true c = some false := by
  have hcolon := @not_mem_of_isBareChar x hx [':'] (by decide)
  have hmark : ",[]\x7b\x7d".toList.contains x = false := by
    rw [Bool.eq_false_iff, Ne, List.contains_iff_mem]
    exact not_mem_of_isBareChar hx (by decide)
  unfold plainEnds?
  rw [Cursor.peek_of_rest hc]
  simp only [isSpaceTab_of_isBareChar hx, isBreak_of_isBareChar hx, hmark,
    mt List.mem_singleton.mpr hcolon]
  simp

theorem plainEnds?_of_follows {c : Cursor} {x : Char} {rest : Text} (hc : c.rest = x :: rest)
    (hx : Follows x) : plainEnds? true c = some true := by
  unfold plainEnds?
  rw [Cursor.peek_of_rest hc]
  rcases hx with rfl | rfl | rfl <;> rfl

theorem plainEnds?_of_gap {c : Cursor} {x : Char} {rest : Text} (hc : c.rest = x :: rest)
    (hx : x = ' ' ∨ x = '\n') : plainEnds? true c = some true := by
  unfold plainEnds?
  rw [Cursor.peek_of_rest hc]
  rcases hx with rfl | rfl <;> rfl

/-- A bare word is read up to its end. -/
theorem readPlainRun?_bare {w more done : Text} {c : Cursor} {fuel : Nat}
    (hw : ∀ x ∈ w, isBareChar x = true)
    (hmore : ∀ c' : Cursor, c'.rest = more → plainEnds? true c' = some true)
    (hc : c.rest = w ++ more) (hfuel : w.length < fuel) :
    readPlainRun? true fuel done c = some (w.reverse ++ done, c.skips w.length) := by
  induction w generalizing done c fuel with
  | nil =>
    obtain ⟨fuel, rfl⟩ : ∃ n, fuel = n + 1 := ⟨fuel - 1, by omega⟩
    rw [readPlainRun?, hmore c hc]
    rfl
  | cons x w ih =>
    obtain ⟨hx, hrest⟩ := List.forall_mem_cons.mp hw
    obtain ⟨fuel, rfl⟩ : ∃ n, fuel = n + 1 := ⟨fuel - 1, by omega⟩
    rw [readPlainRun?, plainEnds?_of_isBareChar hc hx, Cursor.peek_of_rest hc,
      Cursor.skip_eq_skips hc]
    simp only
    rw [ih hrest (by rw [Cursor.rest_skips, hc]; rfl) (Nat.lt_of_succ_lt_succ hfuel),
      Cursor.skips_skips, List.length_cons, Nat.add_comm 1]
    simp

/-- A gap is read up to what follows. -/
theorem exists_readSpacing?_gap {gap more : Text} {x : Char} {indent fuel : Nat} {s : Spacing}
    {c : Cursor} (hgap : IsGap gap) (hx : Follows x) (hc : c.rest = gap ++ x :: more)
    (hfuel : gap.length < fuel) :
    ∃ s' c', readSpacing? indent fuel s c = some (s', c') ∧ c'.rest = x :: more := by
  induction gap generalizing s c fuel with
  | nil =>
    obtain ⟨fuel, rfl⟩ : ∃ n, fuel = n + 1 := ⟨fuel - 1, by omega⟩
    refine ⟨s, c, ?_, hc⟩
    rw [readSpacing?, Cursor.peek_of_rest hc]
    rcases hx with rfl | rfl | rfl <;> rfl
  | cons y gap ih =>
    obtain ⟨hy, hrest⟩ := List.forall_mem_cons.mp hgap
    obtain ⟨fuel, rfl⟩ : ∃ n, fuel = n + 1 := ⟨fuel - 1, by omega⟩
    have hless := Nat.lt_of_succ_lt_succ hfuel
    rw [readSpacing?, Cursor.peek_of_rest hc]
    rcases hy with rfl | rfl
    · obtain ⟨s', c', hread, hc'⟩ := @ih fuel (s.addBlank ' ') (c.skips 1) hrest
        (by rw [Cursor.rest_skips, hc]; rfl) hless
      refine ⟨s', c', ?_, hc'⟩
      rw [← hread, ← Cursor.skip_eq_skips hc]
      simp [isSpaceTab]
    · have hbreak : c.takeBreak = (['\n'], ⟨gap ++ x :: more, c.index + 1, c.line + 1, 0⟩) := by
        unfold Cursor.takeBreak
        rw [hc]
        rfl
      obtain ⟨s', c', hread, hc'⟩ := @ih fuel (s.addBreak ['\n'])
        ⟨gap ++ x :: more, c.index + 1, c.line + 1, 0⟩ hrest rfl hless
      refine ⟨s', c', ?_, hc'⟩
      rw [← hread]
      simp [isSpaceTab, isBreak, hbreak]

/-- In front of what follows a value, a plain scalar ends. -/
theorem readPlainFrom?_of_follows {x : Char} {more done : Text} {indent : Nat} {s : Spacing}
    {c : Cursor} (hx : Follows x) (hc : c.rest = x :: more) (fuel : Nat) :
    readPlainFrom? true indent fuel done s c = some (done.reverse, s.broken, c) := by
  cases fuel with
  | zero => rfl
  | succ fuel =>
    have hrun : readPlainRun? true (c.rest.length + 1) [] c = some ([], c) := by
      rw [readPlainRun?, plainEnds?_of_follows hc hx]
    have hgap : ¬(isGapAt c.peek = true ∨ isBreakAt c.peek = true) := by
      rw [Cursor.peek_of_rest hc]
      rcases hx with rfl | rfl | rfl <;> decide
    rw [readPlainFrom?, hrun]
    split
    · rfl
    · simp only [if_true, hgap, if_false]

theorem Bare.seesDocumentMark {w more : Text} {c : Cursor} (hw : Bare w) (hc : c.rest = w ++ more) :
    c.seesDocumentMark = false ∧ c.sees '#' = false := by
  obtain ⟨x, rest, rfl, hx⟩ := hw.begins
  have hpeek := Cursor.peek_of_rest hc
  have hdot : x ≠ '.' := by
    rintro rfl
    rcases hx with hx | ⟨hx, -⟩
    · exact absurd hx (by decide)
    · exact absurd hx (by decide)
  have hdash : ¬(x = '-' ∧ c.ahead 1 = some '-') := by
    rintro ⟨rfl, hahead⟩
    rcases hx with hx | ⟨-, y, more', rfl, hy⟩
    · exact absurd hx (by decide)
    · unfold Cursor.ahead at hahead
      rw [hc] at hahead
      cases hahead
      exact absurd hy (by decide)
  have hhash : x ≠ '#' := by
    rintro rfl
    rcases hx with hx | ⟨hx, -⟩
    · exact absurd hx (by decide)
    · exact absurd hx (by decide)
  constructor
  · rw [Bool.eq_false_iff]
    intro hsees
    simp only [Cursor.seesDocumentMark, Cursor.seesTriple, hpeek, Option.some.injEq, hdot,
      Bool.or_eq_true, Bool.and_eq_true, decide_eq_true_eq, decide_false, Bool.false_eq_true,
      false_and, and_false, or_false] at hsees
    exact hdash ⟨hsees.1.1.1.2, hsees.1.1.2⟩
  · simp [Cursor.sees, hpeek, hhash]

/-- **A bare word is read**, together with the gap behind it. -/
theorem exists_readPlain?_bare {w gap more : Text} {x : Char} {indent : Nat} {c : Cursor}
    (hw : Bare w) (hgap : IsGap gap) (hx : Follows x) (hc : c.rest = w ++ (gap ++ x :: more)) :
    ∃ broken c', readPlain? true indent c = some (w, broken, c') ∧ c'.rest = x :: more := by
  obtain ⟨hdocument, hcomment⟩ := hw.seesDocumentMark hc
  have hne : w.reverse ≠ [] := by
    obtain ⟨_, _, rfl, -⟩ := hw.begins
    simp
  have hrun := @readPlainRun?_bare w (gap ++ x :: more) [] c (c.rest.length + 1) hw.chars
    (fun c' hc' => by
      cases gap with
      | nil => exact plainEnds?_of_follows hc' hx
      | cons y gap => exact plainEnds?_of_gap hc' (hgap y (List.mem_cons_self ..))) hc
    (by rw [hc, List.length_append]; omega)
  have hrest : (c.skips w.length).rest = gap ++ x :: more := by
    rw [Cursor.rest_skips, hc, List.drop_left]
  unfold readPlain?
  rw [readPlainFrom?, hdocument, hcomment, hrun]
  simp only [Bool.false_eq_true, or_self, if_false, List.append_nil, hne]
  cases gap with
  | nil =>
    refine ⟨false, c.skips w.length, ?_, hrest⟩
    have hend : ¬(isGapAt (some x) = true ∨ isBreakAt (some x) = true) := by
      rcases hx with rfl | rfl | rfl <;> decide
    rw [Cursor.peek_of_rest hrest, if_neg hend]
    simp [Spacing.fold]
  | cons y gap =>
    obtain ⟨s, c', hread, hc'⟩ := @exists_readSpacing?_gap (y :: gap) more x indent
      ((c.skips w.length).rest.length + 1) {} (c.skips w.length) hgap hx hrest
      (by rw [hrest, List.length_append]; omega)
    refine ⟨s.broken, c', ?_, hc'⟩
    have hy : isGapAt (some y) = true ∨ isBreakAt (some y) = true := by
      rcases hgap y (List.mem_cons_self ..) with rfl | rfl
      · exact .inl rfl
      · exact .inr rfl
    rw [Cursor.peek_of_rest hrest, if_pos hy, hread]
    simp only [Bool.not_true, Bool.false_eq_true, false_and, if_false]
    rw [readPlainFrom?_of_follows hx hc']
    simp [Spacing.fold]

end NotePress.Yaml
