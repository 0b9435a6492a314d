import Mathlib.Data.List.TakeWhile
import NotePress.Number.Layout
import NotePress.Proofs.Digits
import NotePress.Proofs.FlowScan
import NotePress.Proofs.Lists
import NotePress.Proofs.Rounding
import NotePress.Yaml.Resolution

/-!
# Decimals read back

A number with a point or an exponent consists of the digits in front of the point, those behind it
and the exponent (`Numeral`). Such a text is no integer, no truth value and no other word, whatever
its parts are, so it is read as the number that the digits and the exponent make
(`Numeral.Sound.resolvePlain?`). Each of the three ways in which JSON and YAML write a decimal is of
this form and has its value (`Numeral.exists_numeral_decimal`); a whole number has one zero more,
which rounding does not see. So `resolvePlain?_write`: what JSON holds of a number is its shortest
decimal, which is then read with 64 bits, and nothing of a number that is not finite. YAML holds the
others too (`resolvePlain?_yaml`).

JSON demands more of the form than YAML does, no zero in front and some digit behind a point
(`Numeral.Standard`), and what is written keeps to it.
-/

namespace NotePress

/-- The parts of a number that is written with a point, an exponent or both. -/
structure Numeral where
  whole : Text
  /-- What stands behind the point. -/
  fraction : Option Text
  exponent : Option Int
  /-- Whether an exponent that is not negative has a sign. -/
  plus : Bool

namespace Numeral

variable {n : Numeral}

/-- An exponent with its sign. -/
def exponentText (plus : Bool) (e : Int) : Text :=
  (if e < 0 then ['-'] else if plus then ['+'] else []) ++ Text.ofNat e.natAbs

/-- The digits behind a point, if there is one. -/
def fractionPart (fraction : Option Text) : Text := fraction.elim [] fun u => '.' :: u

/-- The exponent behind its mark, if there is one. -/
def exponentPart (exponent : Option Int) (plus : Bool) : Text :=
  exponent.elim [] fun e => 'e' :: exponentText plus e

/-- The number without its sign. -/
def text (n : Numeral) : Text :=
  n.whole ++ (fractionPart n.fraction ++ exponentPart n.exponent n.plus)

/-- A sign in front of negative numbers. -/
def sign (negative : Bool) : Text := if negative then ['-'] else []

/-- There are digits in front of the point, and only digits; and it is no integer. -/
structure Sound (n : Numeral) : Prop where
  begins : n.whole ≠ []
  whole : ∀ c ∈ n.whole, c.isDigit = true
  fraction : ∀ u ∈ n.fraction, ∀ c ∈ u, c.isDigit = true
  noInteger : n.fraction.isSome ∨ n.exponent.isSome

/-- **The form that JSON asks for**: no zero leads other digits, and digits stand behind a point. -/
structure Standard (n : Numeral) : Prop where
  begins : ∃ c rest, n.whole = c :: rest ∧ (c = '0' → rest = [])
  fraction : n.fraction ≠ some []

/-- The digits as one number. -/
def digits (n : Numeral) : Nat := Nat.ofDigitChars 10 (n.whole ++ n.fraction.getD []) 0

/-- The power of ten of the last digit. -/
def power (n : Numeral) : Int := n.exponent.getD 0 - (n.fraction.getD []).length

/-- The digits behind a point, and what stands behind them. -/
def splitFraction (t : Text) : Text × Text :=
  match t with
  | '.' :: rest => (rest.takeWhile Char.isDigit, rest.dropWhile Char.isDigit)
  | _ => ([], t)

/-- The exponent at the end of a number; zero if there is none. -/
def readExponent? (t : Text) : Option Int :=
  match t with
  | [] => some 0
  | c :: rest =>
    if c = 'e' ∨ c = 'E' then
      match rest with
      | '-' :: digits => (readNat? digits).map fun n => -(n : Int)
      | '+' :: digits => (readNat? digits).map fun n => (n : Int)
      | _ => (readNat? rest).map fun n => (n : Int)
    else none

/-- What is read behind the sign of a number. -/
def readUnsigned? (negative : Bool) (t : Text) : Option Floating :=
  let whole := t.takeWhile Char.isDigit
  let (fraction, t) := splitFraction (t.dropWhile Char.isDigit)
  if whole = [] ∧ fraction = [] then none
  else
    (readExponent? t).bind fun e =>
      match Floating.ofDecimal double negative ((readNat? (whole ++ fraction)).getD 0)
          (e - fraction.length) with
      | .infinite _ => none
      | x => some x

theorem readFinite?_eq (t : Text) :
    Yaml.readFinite? t = match t with
      | '-' :: rest => readUnsigned? true rest
      | '+' :: rest => readUnsigned? false rest
      | _ => readUnsigned? false t := by
  have hpair : Yaml.readFinite? t = (fun p : Bool × Text => readUnsigned? p.1 p.2) (match t with
      | '-' :: rest => (true, rest)
      | '+' :: rest => (false, rest)
      | _ => (false, t)) := rfl
  rw [hpair]
  split <;> rfl

/-- A sign is read in front of a number. -/
theorem readFinite?_sign {t : Text} (ht : ∀ c ∈ t.head?, c.isDigit = true) (negative : Bool) :
    Yaml.readFinite? (sign negative ++ t) = readUnsigned? negative t := by
  cases negative with
  | true => exact readFinite?_eq ('-' :: t)
  | false =>
    show Yaml.readFinite? t = _
    rw [readFinite?_eq]
    split
    · exact absurd (ht _ rfl) (by decide)
    · exact absurd (ht _ rfl) (by decide)
    · rfl

theorem takeWhile_isDigit {t tail : Text} (ht : ∀ c ∈ t, c.isDigit = true)
    (htail : ∀ c ∈ tail.head?, c.isDigit = false) :
    (t ++ tail).takeWhile Char.isDigit = t ∧ (t ++ tail).dropWhile Char.isDigit = tail := by
  rw [takeWhile_append_of_head htail, dropWhile_append_of_head htail,
    List.takeWhile_eq_self_iff.mpr ht, List.dropWhile_eq_nil_iff.mpr ht]
  exact ⟨rfl, rfl⟩

/-- Digits without a sign are read as an exponent. -/
theorem readExponent?_digits (n : Nat) : readExponent? ('e' :: Text.ofNat n) = some (n : Int) := by
  have hdigit : ∀ {c rest}, Text.ofNat n = c :: rest → c.isDigit = true := fun h =>
    Text.isDigit_of_mem_ofNat (by rw [h]; exact List.mem_cons_self ..)
  show (match Text.ofNat n with
    | '-' :: digits => (readNat? digits).map fun n => -(n : Int)
    | '+' :: digits => (readNat? digits).map fun n => (n : Int)
    | _ => (readNat? (Text.ofNat n)).map fun n => (n : Int)) = _
  split
  · exact absurd (hdigit ‹_›) (by decide)
  · exact absurd (hdigit ‹_›) (by decide)
  · rw [readNat?_ofNat]
    rfl

theorem readExponent?_exponentPart (exponent : Option Int) (plus : Bool) :
    readExponent? (exponentPart exponent plus) = some (exponent.getD 0) := by
  cases exponent with
  | none => rfl
  | some e =>
    by_cases he : e < 0
    · have hneg : -(e.natAbs : Int) = e := by omega
      simp only [exponentPart, exponentText, Option.elim_some, he, if_true, List.cons_append,
        List.nil_append, readExponent?, true_or, readNat?_ofNat, Option.getD_some]
      exact congrArg some hneg
    · have hpos : (e.natAbs : Int) = e := by omega
      simp only [exponentPart, exponentText, Option.elim_some, he, if_false, Option.getD_some]
      cases plus with
      | true =>
        simp only [if_true, List.cons_append, List.nil_append, readExponent?, true_or,
          readNat?_ofNat]
        exact congrArg some hpos
      | false => exact (readExponent?_digits e.natAbs).trans (congrArg some hpos)

theorem isDigit_of_head_exponentPart (exponent : Option Int) (plus : Bool) :
    ∀ c ∈ (exponentPart exponent plus).head?, c.isDigit = false := by
  cases exponent <;> rintro _ ⟨⟩
  rfl

theorem Sound.splitFraction (h : n.Sound) :
    splitFraction (fractionPart n.fraction ++ exponentPart n.exponent n.plus) =
      (n.fraction.getD [], exponentPart n.exponent n.plus) := by
  have hexponent := isDigit_of_head_exponentPart n.exponent n.plus
  cases hfraction : n.fraction with
  | none =>
    cases n.exponent <;> rfl
  | some u =>
    obtain ⟨htake, hdrop⟩ := takeWhile_isDigit (h.fraction u hfraction) hexponent
    exact Prod.ext htake hdrop

/-- The digits around the point are read as one number. -/
theorem Sound.readNat? (h : n.Sound) :
    readNat? (n.whole ++ n.fraction.getD []) = some n.digits := by
  refine readNat?_of_isDigit (by simp [h.begins]) fun c hc =>
    (List.mem_append.mp hc).elim (h.whole c) fun hc => ?_
  cases hu : n.fraction with
  | none => simp [hu] at hc
  | some u => exact h.fraction u hu c (by simpa [hu] using hc)

/-- **The parts of a number are read.** -/
theorem Sound.readUnsigned? (h : n.Sound) (negative : Bool) :
    readUnsigned? negative n.text =
      match Floating.ofDecimal double negative n.digits n.power with
      | .infinite _ => none
      | x => some x := by
  have htail : ∀ c ∈ (fractionPart n.fraction ++ exponentPart n.exponent n.plus).head?,
      c.isDigit = false := by
    cases n.fraction with
    | none => exact isDigit_of_head_exponentPart n.exponent n.plus
    | some u => rintro _ ⟨⟩; rfl
  obtain ⟨htake, hdrop⟩ := takeWhile_isDigit h.whole htail
  unfold Numeral.readUnsigned? text
  simp only [htake, hdrop, h.splitFraction, h.begins, false_and, if_false,
    readExponent?_exponentPart, Option.bind_some, h.readNat?, Option.getD_some]
  rfl

/-! ### What kind of scalar it is -/

theorem Sound.exists_begin (h : n.Sound) :
    ∃ c rest, n.text = c :: rest ∧ c.isDigit = true := by
  obtain ⟨c, w, hw⟩ := List.exists_cons_of_ne_nil h.begins
  refine ⟨c, w ++ (fractionPart n.fraction ++ exponentPart n.exponent n.plus), ?_,
    h.whole c (by rw [hw]; exact List.mem_cons_self ..)⟩
  unfold text
  rw [hw]
  rfl

theorem Sound.isDigit_of_text {c : Char} {rest : Text} (h : n.Sound) (htext : n.text = c :: rest) :
    c.isDigit = true := by
  obtain ⟨c', rest', htext', hc⟩ := h.exists_begin
  cases htext.symm.trans htext'
  exact hc

/-- A number that is no integer has a point or a mark of an exponent. -/
theorem Sound.exists_mark (h : n.Sound) : ∃ c ∈ n.text, c = '.' ∨ c = 'e' := by
  unfold text
  rcases h.noInteger with hsome | hsome
  · obtain ⟨u, hu⟩ := Option.isSome_iff_exists.mp hsome
    exact ⟨'.', by simp [hu, fractionPart], .inl rfl⟩
  · obtain ⟨e, he⟩ := Option.isSome_iff_exists.mp hsome
    exact ⟨'e', by simp [he, exponentPart], .inr rfl⟩

/-- A character of a number. -/
def isNumeralChar (c : Char) : Bool := c.isDigit || c = '.' || c = 'e' || c = '+' || c = '-'

theorem Sound.isNumeralChar (h : n.Sound) : ∀ c ∈ n.text, isNumeralChar c = true := by
  have hdigit : ∀ c : Char, c.isDigit = true → Numeral.isNumeralChar c = true := fun c hc => by
    simp [Numeral.isNumeralChar, hc]
  unfold text
  simp only [List.forall_mem_append]
  refine ⟨fun c hc => hdigit c (h.whole c hc), ?_, ?_⟩
  · cases hu : n.fraction with
    | none => simp [fractionPart]
    | some u => exact List.forall_mem_cons.mpr ⟨rfl, fun c hc => hdigit c (h.fraction u hu c hc)⟩
  · cases n.exponent with
    | none => simp [exponentPart]
    | some e =>
      refine List.forall_mem_cons.mpr ⟨rfl, List.forall_mem_append.mpr ⟨?_, fun c hc =>
        hdigit c (Text.isDigit_of_mem_ofNat hc)⟩⟩
      split
      · exact List.forall_mem_singleton.mpr rfl
      · split
        · exact List.forall_mem_singleton.mpr rfl
        · exact nofun

/-- **A number is a bare word.** -/
theorem Sound.bare (h : n.Sound) (negative : Bool) : Yaml.Bare (sign negative ++ n.text) := by
  obtain ⟨c, rest, htext, hc⟩ := h.exists_begin
  have halnum : c.isAlphanum = true := by simp [Char.isAlphanum, hc]
  have hchars : ∀ x ∈ n.text, Yaml.isBareChar x = true := fun x hx => by
    have hx := h.isNumeralChar x hx
    simp only [Numeral.isNumeralChar, Bool.or_eq_true, decide_eq_true_eq] at hx
    rcases hx with (((hx | rfl) | rfl) | rfl) | rfl
    · simp [Yaml.isBareChar, Char.isAlphanum, hx]
    all_goals rfl
  cases negative with
  | true =>
    exact ⟨List.forall_mem_cons.mpr ⟨rfl, hchars⟩,
      '-', n.text, rfl, .inr ⟨rfl, c, rest, htext, halnum⟩⟩
  | false => exact ⟨hchars, c, rest, htext, .inl halnum⟩

theorem readBase?_of_mem {base : Nat} {t : Text} {c : Char} (hc : c ∈ t)
    (hvalue : Yaml.digitValue? base c = none) : Yaml.readBase? base t = none := by
  have hnone : ∀ t : Text, t.foldl (fun acc c => acc.bind fun n =>
      (Yaml.digitValue? base c).map fun d => n * base + d) none = none := by
    intro t
    induction t with
    | nil => rfl
    | cons _ _ ih => exact ih
  have hfold : ∀ (t : Text) (start : Option Nat), c ∈ t → t.foldl (fun acc c => acc.bind fun n =>
      (Yaml.digitValue? base c).map fun d => n * base + d) start = none := by
    intro t
    induction t with
    | nil => exact fun _ h => absurd h List.not_mem_nil
    | cons x rest ih =>
      intro start hmem
      rw [List.foldl_cons]
      rcases List.mem_cons.mp hmem with rfl | hmem
      · rw [hvalue]
        cases start <;> exact hnone rest
      · exact ih _ hmem
  unfold Yaml.readBase?
  split
  · rfl
  · exact hfold t _ hc

/-- A number that is no integer has no magnitude as one. -/
theorem Sound.magnitude? (h : n.Sound) : Yaml.magnitude? n.text = none := by
  obtain ⟨c, hc, hmark⟩ := h.exists_mark
  have hbase : Yaml.readBase? 10 n.text = none :=
    readBase?_of_mem hc (by rcases hmark with rfl | rfl <;> decide)
  have hnot : ∀ x y rest, n.text = x :: y :: rest → y ≠ 'x' ∧ y ≠ 'o' ∧ y ≠ 'b' := by
    intro x y rest htext
    have hy := h.isNumeralChar y (by rw [htext]; simp)
    refine ⟨?_, ?_, ?_⟩ <;> rintro rfl <;> exact absurd hy (by decide)
  unfold Yaml.magnitude?
  rw [hbase, ite_self]
  split
  · exact absurd rfl (hnot _ _ _ ‹_›).1
  · exact absurd rfl (hnot _ _ _ ‹_›).2.1
  · exact absurd rfl (hnot _ _ _ ‹_›).2.2
  · rfl

theorem Sound.intWithin? (h : n.Sound) (negative : Bool) (bits : Nat) :
    Yaml.intWithin? bits (sign negative ++ n.text) = none := by
  cases negative with
  | true =>
    show Yaml.intWithin? bits ('-' :: n.text) = none
    unfold Yaml.intWithin?
    simp only [h.magnitude?]
    rfl
  | false =>
    show Yaml.intWithin? bits n.text = none
    unfold Yaml.intWithin?
    split
    · exact absurd (h.isDigit_of_text ‹_›) (by decide)
    · exact absurd (h.isDigit_of_text ‹_›) (by decide)
    · rw [h.magnitude?]
      rfl

theorem Sound.isPaddedDigits (h : n.Sound) (negative : Bool) :
    Yaml.isPaddedDigits (sign negative ++ n.text) = false := by
  obtain ⟨c, hc, hmark⟩ := h.exists_mark
  have hdrop : Yaml.dropSign (sign negative ++ n.text) = n.text := by
    cases negative with
    | true => rfl
    | false =>
      show Yaml.dropSign n.text = n.text
      unfold Yaml.dropSign
      split
      · exact absurd (h.isDigit_of_text ‹_›) (by decide)
      · exact absurd (h.isDigit_of_text ‹_›) (by decide)
      · rfl
  unfold Yaml.isPaddedDigits
  rw [hdrop]
  split
  · rename_i x rest htext
    rw [htext] at hc
    rw [List.all_eq_false]
    refine ⟨c, (List.mem_cons.mp hc).resolve_left ?_, ?_⟩
    · rintro rfl
      rcases hmark with h | h <;> cases h
    · rcases hmark with rfl | rfl <;> decide
  · rfl

/-- Whether a text begins with a digit, or with a minus sign and a digit. -/
def beginsNumber : Text → Bool
  | '-' :: rest => rest.head?.any Char.isDigit
  | t => t.head?.any Char.isDigit

theorem beginsNumber_sign {c : Char} {rest : Text} (hc : c.isDigit = true) (negative : Bool) :
    beginsNumber (sign negative ++ c :: rest) = true := by
  cases negative with
  | true => simp [sign, beginsNumber, hc]
  | false =>
    show beginsNumber (c :: rest) = true
    unfold beginsNumber
    split
    · rename_i heq
      cases heq
      exact absurd hc (by decide)
    · simp [hc]

theorem Sound.beginsNumber (h : n.Sound) (negative : Bool) :
    beginsNumber (sign negative ++ n.text) = true := by
  obtain ⟨c, rest, htext, hc⟩ := h.exists_begin
  rw [htext]
  exact beginsNumber_sign hc negative

/-- A number is none of the words that a scalar is compared with. -/
theorem any_words {t : Text} (ht : beginsNumber t = true) {words : List String}
    (hwords : ∀ s ∈ words, beginsNumber s.toList = false) :
    (words.any fun s => s.toList = t) = false := by
  rw [List.any_eq_false]
  intro s hs heq
  have hbegins := hwords s hs
  rw [of_decide_eq_true heq, ht] at hbegins
  cases hbegins

theorem Sound.float? (h : n.Sound) (negative : Bool) :
    Yaml.float? (sign negative ++ n.text) = Yaml.readFinite? (sign negative ++ n.text) := by
  have hplus : ∀ rest, sign negative ++ n.text = '+' :: rest → False := fun rest heq => by
    have hbegins := h.beginsNumber negative
    rw [heq] at hbegins
    exact absurd hbegins (by simp [Numeral.beginsNumber])
  have hwords : ∀ words : List String, (∀ s ∈ words, Numeral.beginsNumber s.toList = false) →
      (words.any fun s => s.toList = sign negative ++ n.text) = false := fun words =>
    any_words (h.beginsNumber negative)
  generalize sign negative ++ n.text = t at hplus hwords
  unfold Yaml.float?
  split
  · exact (hplus _ rfl).elim
  · simp only [hwords [".inf", ".Inf", ".INF"] (by decide),
      hwords ["-.inf", "-.Inf", "-.INF"] (by decide),
      hwords [".nan", ".NaN", ".NAN"] (by decide), Bool.false_eq_true, if_false]
    cases t with
    | nil => rfl
    | cons c rest =>
      have hc : c ≠ '+' := by
        rintro rfl
        exact hplus rest rfl
      simp [hc]

/-- **A number that is no integer is resolved to its value.** -/
theorem Sound.resolvePlain? (h : n.Sound) (negative : Bool) :
    Yaml.resolvePlain? (sign negative ++ n.text) =
      match Floating.ofDecimal double negative n.digits n.power with
      | .infinite _ => some (.text (sign negative ++ n.text))
      | x => some (.float double x) := by
  have hne : sign negative ++ n.text ≠ [] := by simp [text, h.begins]
  have hbegins := h.beginsNumber negative
  have hnull : Yaml.isNull (sign negative ++ n.text) = false := any_words hbegins (by decide)
  have hbool : Yaml.bool? (sign negative ++ n.text) = none := by
    unfold Yaml.bool?
    rw [any_words hbegins (by decide), any_words hbegins (by decide)]
    rfl
  have hfinite : Yaml.readFinite? (sign negative ++ n.text) =
      Numeral.readUnsigned? negative n.text := by
    obtain ⟨c, rest, htext, hc⟩ := h.exists_begin
    exact readFinite?_sign (by rw [htext]; rintro _ ⟨⟩; exact hc) negative
  unfold Yaml.resolvePlain?
  simp only [hne, hnull, hbool, h.intWithin?, h.isPaddedDigits, h.float?, hfinite, h.readUnsigned?]
  cases Floating.ofDecimal double negative n.digits n.power <;> simp

/-! ### Numbers as they are written -/

theorem ofDigitChars_ofNat (n : Nat) : Nat.ofDigitChars 10 (Text.ofNat n) 0 = n :=
  Nat.ofDigitChars_ten_toDigits

/-- Quotients that are rounded alike have the same value. -/
theorem ofQuotient_congr {f : BinaryFormat} {n d n' d' : Nat} (negative : Bool)
    (h : f.round n d = f.round n' d') :
    Floating.ofQuotient f negative n d = Floating.ofQuotient f negative n' d' := by
  unfold Floating.ofQuotient
  rw [h]

/-- A zero behind the point does not matter. -/
theorem ofDecimal_shift {f : BinaryFormat} (hp : 0 < f.precision) (negative : Bool) (digits : Nat)
    {zeros : Nat} (hzeros : zeros ≤ 400) :
    Floating.ofDecimal f negative (digits * 10 ^ (zeros + 1)) (-1) =
      Floating.ofDecimal f negative digits zeros := by
  by_cases hdigits : digits = 0
  · simp [hdigits, Floating.ofDecimal]
  · have hshifted : digits * 10 ^ (zeros + 1) ≠ 0 :=
      Nat.mul_ne_zero hdigits (Nat.ne_of_gt (Nat.pow_pos (by decide)))
    have hround := f.round_mul hp Nat.one_ne_zero (show 0 < 10 by decide) (digits * 10 ^ zeros)
    rw [Nat.mul_assoc, ← Nat.pow_succ, Nat.one_mul] at hround
    unfold Floating.ofDecimal
    rw [if_neg hshifted, if_neg (by decide), if_neg (by omega), if_neg (by decide), if_neg hdigits,
      if_neg (by omega), if_neg (by omega), if_pos (by omega)]
    exact ofQuotient_congr negative hround

/-- A whole number is written with a zero behind the point. -/
theorem exists_numeral_whole (digits zeros : Nat) (hzeros : digits = 0 ∨ zeros ≤ 400) :
    ∃ n : Numeral, n.Sound ∧ ((digits = 0 → zeros = 0) → n.Standard) ∧
      Text.ofNat digits ++ List.replicate zeros '0' ++ ".0".toList = n.text ∧
      ∀ negative, Floating.ofDecimal double negative n.digits n.power =
        Floating.ofDecimal double negative digits zeros := by
  refine ⟨⟨Text.ofNat digits ++ List.replicate zeros '0', some ['0'], none, false⟩,
    ⟨?_, ?_, ?_, .inl rfl⟩, fun hstandard => ⟨?_, by simp⟩, ?_, fun negative => ?_⟩
  · simp [Text.ofNat_ne_nil]
  · intro c hc
    rcases List.mem_append.mp hc with hc | hc
    · exact Text.isDigit_of_mem_ofNat hc
    · rw [List.eq_of_mem_replicate hc]
      rfl
  · rintro _ ⟨⟩ c hc
    rw [List.mem_singleton.mp hc]
    rfl
  · obtain ⟨c, rest, hwritten, -, hlead⟩ := Text.exists_ofNat digits
    refine ⟨c, rest ++ List.replicate zeros '0', by rw [hwritten]; rfl, fun hc => ?_⟩
    obtain ⟨rfl, rfl⟩ := hlead hc
    rw [hstandard rfl]
    rfl
  · simp [text, fractionPart, exponentPart]
  · have hdigits :
        Numeral.digits ⟨Text.ofNat digits ++ List.replicate zeros '0', some ['0'], none, false⟩ =
          digits * 10 ^ (zeros + 1) := by
      show Nat.ofDigitChars 10 (Text.ofNat digits ++ List.replicate zeros '0' ++ ['0']) 0 = _
      rw [List.append_assoc, ← List.replicate_succ', Nat.ofDigitChars_append, ofDigitChars_ofNat,
        Nat.ofDigitChars_replicate_zero, Nat.mul_comm]
    rw [hdigits]
    rcases hzeros with rfl | hzeros
    · simp [Floating.ofDecimal]
    · exact ofDecimal_shift (by decide) negative digits hzeros

/-- Digits are written with a point somewhere among them, behind zeros where they are too few. -/
theorem exists_numeral_places (digits : Nat) {places : Nat} (hplaces : 0 < places) :
    let padded := List.replicate (places + 1 - (Text.ofNat digits).length) '0' ++ Text.ofNat digits
    ∃ n : Numeral, n.Sound ∧ n.Standard ∧
      padded.take (padded.length - places) ++ '.' :: padded.drop (padded.length - places) = n.text ∧
      n.digits = digits ∧ n.power = -(places : Int) := by
  intro padded
  have hlength : places + 1 ≤ padded.length := by
    simp only [padded, List.length_append, List.length_replicate]
    omega
  have hpadded : ∀ c ∈ padded, c.isDigit = true := by
    intro c hc
    rcases List.mem_append.mp hc with hc | hc
    · rw [List.eq_of_mem_replicate hc]
      rfl
    · exact Text.isDigit_of_mem_ofNat hc
  refine ⟨⟨padded.take (padded.length - places), some (padded.drop (padded.length - places)), none,
    false⟩, ⟨?_, fun c hc => hpadded c (List.mem_of_mem_take hc), ?_, .inl rfl⟩, ⟨?_, ?_⟩, ?_, ?_,
    ?_⟩
  · intro hnil
    have hlen := congrArg List.length hnil
    rw [List.length_take, List.length_nil] at hlen
    omega
  · rintro _ ⟨⟩ c hc
    exact hpadded c (List.mem_of_mem_drop hc)
  · -- with zeros in front there is one digit in front of the point, and without none is padded
    obtain ⟨c, rest, hwritten, -, hlead⟩ := Text.exists_ofNat digits
    by_cases hfew : (Text.ofNat digits).length ≤ places
    · refine ⟨'0', [], ?_, fun _ => rfl⟩
      have hpad : padded = '0' :: (List.replicate (places - (Text.ofNat digits).length) '0' ++
          Text.ofNat digits) := by
        simp only [padded]
        rw [show places + 1 - (Text.ofNat digits).length =
          places - (Text.ofNat digits).length + 1 by omega, List.replicate_succ, List.cons_append]
      have hone : padded.length - places = 1 := by
        rw [hpad, List.length_cons, List.length_append, List.length_replicate]
        omega
      rw [hone, hpad]
      rfl
    · have hpad : padded = c :: rest := by
        simp only [padded]
        rw [show places + 1 - (Text.ofNat digits).length = 0 by omega, List.replicate_zero,
          List.nil_append, hwritten]
      rw [hwritten, List.length_cons] at hfew
      refine ⟨c, rest.take (rest.length - places), ?_, fun hc => ?_⟩
      · show padded.take (padded.length - places) = _
        have hkept : rest.length + 1 - places = rest.length - places + 1 := by omega
        rw [hpad, List.length_cons, hkept, List.take_succ_cons]
      · rw [(hlead hc).2, List.take_nil]
  · intro hnone
    have hlen := congrArg List.length (Option.some.inj hnone)
    rw [List.length_drop, List.length_nil] at hlen
    omega
  · simp [text, fractionPart, exponentPart]
  · show Nat.ofDigitChars 10 (padded.take _ ++ padded.drop _) 0 = digits
    rw [List.take_append_drop, Nat.ofDigitChars_append, Nat.ofDigitChars_replicate_zero,
      Nat.mul_zero, ofDigitChars_ofNat]
  · show (0 : Int) - ((padded.drop (padded.length - places)).length : Int) = _
    rw [List.length_drop]
    omega

/-- **A layout whose numbers can be told from integers**: positional ones have a point, the others
an exponent. -/
structure IsDecimal (l : NumberLayout) : Prop where
  positional : l.positional = some (-6, 13)
  wholeMark : l.wholeMark = ".0".toList
  exponentPlus : l.exponentPlus = [] ∨ l.exponentPlus = ['+']

theorem isDecimal_json : IsDecimal .json := ⟨rfl, rfl, .inr rfl⟩

theorem isDecimal_yaml : IsDecimal .yaml := ⟨rfl, rfl, .inl rfl⟩

variable {l : NumberLayout}

/-- One digit is written in front of the point, and the exponent says where the point stands. -/
theorem exists_numeral_exponent (hl : IsDecimal l) (d : Decimal) :
    ∃ n : Numeral, n.Sound ∧ n.Standard ∧ l.writeExponent d = n.text ∧ n.digits = d.digits ∧
      n.power = d.exponent := by
  obtain ⟨c, rest, hdigits⟩ := List.exists_cons_of_ne_nil (Text.ofNat_ne_nil d.digits)
  have hall : ∀ x ∈ c :: rest, x.isDigit = true := fun x hx =>
    Text.isDigit_of_mem_ofNat (by rw [hdigits]; exact hx)
  have hvalue : Nat.ofDigitChars 10 (c :: rest) 0 = d.digits := by
    rw [← hdigits, ofDigitChars_ofNat]
  let fraction : Option Text := if rest = [] then none else some rest
  have hfraction : fraction.getD [] = rest := by
    by_cases hrest : rest = [] <;> simp [fraction, hrest]
  have hlength : (Text.ofNat d.digits).length = rest.length + 1 := by rw [hdigits, List.length_cons]
  obtain ⟨plus, hsign⟩ : ∃ plus, ∀ e : Int, (if e < 0 then '-' :: Text.ofNat e.natAbs
      else l.exponentPlus ++ Text.ofNat e.natAbs) = exponentText plus e := by
    rcases hl.exponentPlus with hplus | hplus
    · exact ⟨false, fun e => by rw [hplus, exponentText]; split <;> rfl⟩
    · exact ⟨true, fun e => by rw [hplus, exponentText]; split <;> rfl⟩
  refine ⟨⟨[c], fraction, some (d.exponent + ((rest.length + 1 : Nat) : Int) - 1), plus⟩,
    ⟨by simp, fun x hx => hall x (by simp_all), fun u hu x hx => hall x ?_, .inr rfl⟩,
    ⟨⟨c, [], rfl, fun _ => rfl⟩, ?_⟩, ?_, ?_, ?_⟩
  · rw [show fraction = some u from hu] at hfraction
    obtain rfl : u = rest := hfraction
    exact List.mem_cons_of_mem _ hx
  · cases rest <;> simp [fraction]
  · unfold NumberLayout.writeExponent text
    simp only [hsign, hlength]
    rw [hdigits]
    cases rest <;> simp [fraction, fractionPart, exponentPart]
  · show Nat.ofDigitChars 10 ([c] ++ fraction.getD []) 0 = _
    rw [hfraction]
    exact hvalue
  · show d.exponent + _ - 1 - ((fraction.getD []).length : Int) = _
    rw [hfraction]
    omega

/-- **A number has the digits and the exponent of its decimal**, or one zero more. -/
theorem exists_numeral_decimal (hl : IsDecimal l) (d : Decimal) :
    ∃ n : Numeral, n.Sound ∧ ((d.digits = 0 → d.exponent = 0) → n.Standard) ∧
      l.writeDecimal d = n.text ∧
      ∀ negative, Floating.ofDecimal double negative n.digits n.power =
        Floating.ofDecimal double negative d.digits d.exponent := by
  have hlength : 0 < (Text.ofNat d.digits).length := List.length_pos_iff.mpr (Text.ofNat_ne_nil _)
  let power : Int := d.exponent + ((Text.ofNat d.digits).length : Int) - 1
  have hwritten : l.writeDecimal d =
      if d.digits = 0 ∨ (-6 ≤ power ∧ power < 13) then l.writePositional d
      else l.writeExponent d := by
    unfold NumberLayout.writeDecimal
    rw [hl.positional]
  rw [hwritten]
  split
  · rename_i hpositional
    unfold NumberLayout.writePositional
    rw [hl.wholeMark]
    split
    · rename_i hexponent
      obtain ⟨n, hn, hstandard, htext, hvalue⟩ :=
        exists_numeral_whole d.digits d.exponent.toNat (by omega)
      refine ⟨n, hn, fun hzero => hstandard fun hdigits => ?_, htext, fun negative => ?_⟩
      · rw [hzero hdigits]
        rfl
      · rw [hvalue, Int.toNat_of_nonneg hexponent]
    · obtain ⟨n, hn, hstandard, htext, hdigits, hpower⟩ :=
        exists_numeral_places d.digits (show 0 < (-d.exponent).toNat by omega)
      refine ⟨n, hn, fun _ => hstandard, htext, fun negative => ?_⟩
      rw [hdigits, hpower]
      congr 1
      omega
  · obtain ⟨n, hn, hstandard, htext, hdigits, hpower⟩ := exists_numeral_exponent hl d
    exact ⟨n, hn, fun _ => hstandard, htext, fun negative => by rw [hdigits, hpower]⟩

/-- Zero does not round to another number. -/
theorem digits_ne_zero_of_roundsTo {f : BinaryFormat} {m c : Nat} {e t : Int} (hm : m ≠ 0)
    (h : roundsTo f m e c t = true) : c ≠ 0 := by
  rintro rfl
  have hlow : 0 < (roundingInterval f m e).1 := by
    unfold roundingInterval
    simp only
    split <;> omega
  have hgrid : (if 0 ≤ t then ((0 : Nat), 1) else (0, Nat.pow 10 (-t).toNat)).1 = 0 ∧
      0 < (if 0 ≤ t then ((0 : Nat), 1) else (0, Nat.pow 10 (-t).toNat)).2 := by
    split
    · exact ⟨rfl, Nat.one_pos⟩
    · exact ⟨rfl, Nat.pow_pos (by decide)⟩
  unfold roundsTo at h
  simp only [scaleByPower_eq, Nat.zero_mul, hgrid.1] at h
  have hden := Nat.mul_pos hlow (Nat.mul_pos hgrid.2 (Nat.two_pow_pos (e - 2).toNat))
  split at h
  · have := of_decide_eq_true (Bool.and_eq_true_iff.mp h).1
    omega
  · have := of_decide_eq_true (Bool.and_eq_true_iff.mp h).1
    omega

theorem digits_trimZeros {d : Decimal} (hd : d.digits ≠ 0) (fuel : Nat) :
    (d.trimZeros fuel).digits ≠ 0 := by
  induction fuel generalizing d with
  | zero => exact hd
  | succ fuel ih =>
    rw [Decimal.trimZeros]
    split
    · exact ih (show d.digits / 10 ≠ 0 by omega)
    · exact hd

theorem digits_of_decimalOfLength? {tie : Tie} {f : BinaryFormat} {m length : Nat} {e : Int}
    {d : Decimal} (hm : m ≠ 0) (h : decimalOfLength? tie f m e length = some d) : d.digits ≠ 0 := by
  have htried : ∀ {near far : Nat} {t : Int},
      (if roundsTo f m e near t then some (Decimal.mk near t)
        else if roundsTo f m e far t then some ⟨far, t⟩ else none) = some d → d.digits ≠ 0 := by
    intro near far t h
    split at h
    · cases h
      exact digits_ne_zero_of_roundsTo hm ‹_›
    · split at h
      · cases h
        exact digits_ne_zero_of_roundsTo hm ‹_›
      · cases h
  exact htried h

/-- **The shortest decimal is `0` or has a digit other than zero.** -/
theorem shortestDecimal_cases (tie : Tie) (f : BinaryFormat) (m : Nat) (e : Int) :
    shortestDecimal tie f m e = ⟨0, 0⟩ ∨ (shortestDecimal tie f m e).digits ≠ 0 := by
  unfold shortestDecimal
  split
  · exact .inl rfl
  · rename_i hm
    split
    · obtain ⟨length, -, hlength⟩ := List.exists_of_findSome?_eq_some ‹_›
      exact .inr (digits_trimZeros (digits_of_decimalOfLength? hm hlength) _)
    · exact .inl rfl

/-- **A finite number is written as a numeral.** -/
theorem exists_numeral_write (hl : IsDecimal l) (f : BinaryFormat) (negative : Bool) (m : Nat)
    (e : Int) :
    ∃ n : Numeral, n.Sound ∧ n.Standard ∧
      l.write f (.finite negative m e) = sign negative ++ n.text ∧
      Floating.ofDecimal double negative n.digits n.power =
        Floating.ofDecimal double negative (shortestDecimal l.tie f m e).digits
          (shortestDecimal l.tie f m e).exponent := by
  obtain ⟨n, hn, hstandard, htext, hvalue⟩ :=
    exists_numeral_decimal hl (shortestDecimal l.tie f m e)
  refine ⟨n, hn, hstandard fun hdigits => ?_, ?_, hvalue negative⟩
  · rcases shortestDecimal_cases l.tie f m e with hzero | hdigits'
    · rw [hzero]
    · exact absurd hdigits hdigits'
  · rw [← htext]
    rfl

end Numeral

/-- An integer is a bare word. -/
theorem bare_ofInt (n : Int) : Yaml.Bare (Text.ofInt n) := by
  obtain ⟨c, rest, hdigits⟩ := List.exists_cons_of_ne_nil (Text.ofNat_ne_nil n.natAbs)
  have halnum : ∀ x ∈ Text.ofNat n.natAbs, x.isAlphanum = true := fun x hx => by
    simp [Char.isAlphanum, Text.isDigit_of_mem_ofNat hx]
  have hchars : ∀ x ∈ Text.ofNat n.natAbs, Yaml.isBareChar x = true := fun x hx => by
    simp [Yaml.isBareChar, halnum x hx]
  have hc : c.isAlphanum = true := halnum c (by rw [hdigits]; exact List.mem_cons_self ..)
  unfold Text.ofInt
  split
  · exact ⟨List.forall_mem_cons.mpr ⟨rfl, hchars⟩, '-', _, rfl, .inr ⟨rfl, c, rest, hdigits, hc⟩⟩
  · exact ⟨hchars, c, rest, hdigits, .inl hc⟩

/-- Digits are read alike as a scalar and as a number. -/
theorem readBase?_of_isDigit {t : Text} (hne : t ≠ []) (ht : ∀ c ∈ t, c.isDigit = true) :
    Yaml.readBase? 10 t = readNat? t := by
  have hvalue : ∀ c : Char, c.isDigit = true →
      Yaml.digitValue? 10 c = some (c.toNat - '0'.toNat) := by
    intro c hc
    obtain ⟨hlow, hhigh⟩ := toNat_of_isDigit hc
    have hsmall : c.toNat - 48 < 10 := by omega
    simp [Yaml.digitValue?, hc, hsmall]
  unfold Yaml.readBase? readNat?
  rw [if_neg hne]
  split
  · exact absurd rfl hne
  · refine List.foldl_ext _ _ _ fun acc c hc => ?_
    simp [hvalue c (ht c hc), ht c hc]

theorem magnitude?_ofNat (n : Nat) : Yaml.magnitude? (Text.ofNat n) = some n := by
  have hdigits : ∀ c ∈ Text.ofNat n, c.isDigit = true := fun c => Text.isDigit_of_mem_ofNat
  have hbase : Yaml.readBase? 10 (Text.ofNat n) = some n := by
    rw [readBase?_of_isDigit (Text.ofNat_ne_nil n) hdigits, readNat?_ofNat]
  obtain ⟨c, rest, hwritten, hc, hlead⟩ := Text.exists_ofNat n
  rw [hwritten] at hbase hdigits ⊢
  have hsign : Yaml.dropSign (c :: rest) = c :: rest := by
    unfold Yaml.dropSign
    split
    · rename_i heq
      cases heq
      cases hc
    · rename_i heq
      cases heq
      cases hc
    · rfl
  have hpadded : Yaml.isPaddedDigits (c :: rest) = false := by
    unfold Yaml.isPaddedDigits
    rw [hsign]
    split
    · rename_i heq
      obtain ⟨rfl, rfl⟩ := List.cons.inj heq
      cases (hlead rfl).2
    · rfl
  have hnot : ∀ {x y : Char} {more : Text}, c :: rest = x :: y :: more → y.isDigit = true :=
    fun heq => hdigits _ (by rw [heq]; simp)
  unfold Yaml.magnitude?
  rw [hpadded, if_neg Bool.false_ne_true, hbase]
  split
  · exact absurd (hnot ‹_›) (by decide)
  · exact absurd (hnot ‹_›) (by decide)
  · exact absurd (hnot ‹_›) (by decide)
  · rfl

theorem intWithin?_ofInt {k : Int} (hlow : -(2 ^ 63) ≤ k) (hhigh : k < 2 ^ 64) :
    Yaml.intWithin? 64 (Text.ofInt k) = some k := by
  have hmagnitude := magnitude?_ofNat k.natAbs
  unfold Text.ofInt
  split
  · have hsize : k.natAbs ≤ Nat.pow 2 63 := by
      show k.natAbs ≤ 2 ^ 63
      omega
    have habs : -(k.natAbs : Int) = k := by omega
    unfold Yaml.intWithin?
    simp only
    rw [hmagnitude, Option.filter_some, if_pos (decide_eq_true hsize)]
    exact congrArg some habs
  · have hsize : k.natAbs < Nat.pow 2 64 := by
      show k.natAbs < 2 ^ 64
      omega
    have habs : (k.natAbs : Int) = k := by omega
    obtain ⟨c, rest, hwritten, hc, -⟩ := Text.exists_ofNat k.natAbs
    rw [hwritten] at hmagnitude ⊢
    unfold Yaml.intWithin?
    split
    · rename_i heq
      cases heq
      cases hc
    · rename_i heq
      cases heq
      cases hc
    · rw [hmagnitude, Option.filter_some, if_pos (decide_eq_true hsize)]
      exact congrArg some habs

theorem ofInt_eq_sign (k : Int) :
    Text.ofInt k = Numeral.sign (decide (k < 0)) ++ Text.ofNat k.natAbs := by
  unfold Text.ofInt Numeral.sign
  by_cases hk : k < 0 <;> simp [hk]

/-- **An integer within 64 bits is resolved to itself.** -/
theorem resolvePlain?_ofInt {k : Int} (hlow : -(2 ^ 63) ≤ k) (hhigh : k < 2 ^ 64) :
    Yaml.resolvePlain? (Text.ofInt k) = some (.int k) := by
  obtain ⟨c, rest, hwritten, hc, -⟩ := Text.exists_ofNat k.natAbs
  have hbegins : Numeral.beginsNumber (Text.ofInt k) = true := by
    rw [ofInt_eq_sign, hwritten]
    exact Numeral.beginsNumber_sign hc _
  have hwithin := intWithin?_ofInt hlow hhigh
  have hne : Text.ofInt k ≠ [] := by simp [ofInt_eq_sign, hwritten]
  have hnull : Yaml.isNull (Text.ofInt k) = false := Numeral.any_words hbegins (by decide)
  have hbool : Yaml.bool? (Text.ofInt k) = none := by
    unfold Yaml.bool?
    rw [Numeral.any_words hbegins (by decide), Numeral.any_words hbegins (by decide)]
    rfl
  unfold Yaml.resolvePlain?
  simp only [hne, hnull, hbool, hwithin, Bool.false_eq_true, or_self, if_false]

/-- The shortest decimal of a number, read with 64 bits. -/
def Floating.reread (f : BinaryFormat) (negative : Bool) (m : Nat) (e : Int) : Floating :=
  let d := shortestDecimal .even f m e
  ofDecimal double negative d.digits d.exponent

theorem bare_null : Yaml.Bare "null".toList :=
  ⟨List.all_eq_true.mp (by decide), 'n', _, rfl, .inl rfl⟩

/-- **A number in JSON is a bare word.** -/
theorem bare_write (f : BinaryFormat) (x : Floating) : Yaml.Bare (NumberLayout.json.write f x) := by
  cases x with
  | nan => exact bare_null
  | infinite negative => cases negative <;> exact bare_null
  | finite negative m e =>
    obtain ⟨n, hn, -, hwritten, -⟩ :=
      Numeral.exists_numeral_write Numeral.isDecimal_json f negative m e
    rw [hwritten]
    exact hn.bare negative

/-- **A number in JSON is read as its shortest decimal**, with 64 bits; what is not finite is
lost. -/
theorem resolvePlain?_write (f : BinaryFormat) (x : Floating) :
    Yaml.resolvePlain? (NumberLayout.json.write f x) =
      match x with
      | .finite negative m e =>
        match Floating.reread f negative m e with
        | .infinite _ => some (.text (NumberLayout.json.write f x))
        | y => some (.float double y)
      | _ => some .null := by
  cases x with
  | nan => rfl
  | infinite negative => cases negative <;> rfl
  | finite negative m e =>
    obtain ⟨n, hn, -, hwritten, hvalue⟩ :=
      Numeral.exists_numeral_write Numeral.isDecimal_json f negative m e
    rw [hwritten, hn.resolvePlain?, hvalue]
    rfl

/-- **A number in YAML is read as its shortest decimal**, with 64 bits; what is not finite is read
as it is. -/
theorem resolvePlain?_yaml (f : BinaryFormat) (x : Floating) :
    Yaml.resolvePlain? (NumberLayout.yaml.write f x) =
      match x with
      | .finite negative m e =>
        match Floating.reread f negative m e with
        | .infinite _ => some (.text (NumberLayout.yaml.write f x))
        | y => some (.float double y)
      | y => some (.float double y) := by
  cases x with
  | nan => rfl
  | infinite negative => cases negative <;> rfl
  | finite negative m e =>
    obtain ⟨n, hn, -, hwritten, hvalue⟩ :=
      Numeral.exists_numeral_write Numeral.isDecimal_yaml f negative m e
    rw [hwritten, hn.resolvePlain?, hvalue]
    rfl

end NotePress
