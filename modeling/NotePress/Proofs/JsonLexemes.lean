import NotePress.Json.Reader
import NotePress.Json.Writer
import NotePress.Proofs.Decimals

/-!
# Numbers and strings of JSON, read back

A number of JSON is scanned part by part, and each part goes as far as its characters do; so what is
read depends on what stands behind, which must not go on with the number (`EndsNumber`). A decimal
in the form that JSON demands (`Numeral.Standard`) is then read as its parts
(`readNumberParts?_append`), and an integer that fits 64 bits as itself. A string holds no bare
quote, since quotes are escaped, so it ends where its closing quote was written
(`readStringRest?_writeText`).
-/

namespace NotePress.Json

variable {rest : Text}

/-! ### Numbers -/

/-- **What ends a number**: no character that could be a part of it. -/
def EndsNumber (rest : Text) : Prop :=
  ∀ c ∈ rest.head?, c.isDigit = false ∧ c ≠ '.' ∧ c ≠ 'e' ∧ c ≠ 'E'

theorem readDigits?_append {t tail : Text} (hne : t ≠ []) (ht : ∀ c ∈ t, c.isDigit = true)
    (htail : ∀ c ∈ tail.head?, c.isDigit = false) : readDigits? (t ++ tail) = some (t, tail) := by
  obtain ⟨htake, hdrop⟩ := Numeral.takeWhile_isDigit ht htail
  unfold readDigits?
  rw [htake, hdrop]
  split
  · exact absurd rfl hne
  · rfl

theorem readWhole?_append {n : Numeral} (hn : n.Standard) (hwhole : ∀ c ∈ n.whole, c.isDigit = true)
    {tail : Text} (htail : ∀ c ∈ tail.head?, c.isDigit = false) :
    readWhole? (n.whole ++ tail) = some (n.whole, tail) := by
  obtain ⟨c, w, hw, hlead⟩ := hn.begins
  rw [hw] at hwhole ⊢
  by_cases hc : c = '0'
  · obtain rfl := hc
    obtain rfl := hlead rfl
    cases tail with
    | nil => rfl
    | cons x tail => simp [readWhole?, htail x rfl]
  · have hread := readDigits?_append (List.cons_ne_nil c w) hwhole htail
    rw [List.cons_append] at hread ⊢
    unfold readWhole?
    split
    · rename_i heq
      exact absurd (List.cons.inj heq).1 hc
    · exact hread

theorem readPower?_append (n : Nat) (hrest : EndsNumber rest) :
    readPower? (Text.ofNat n ++ rest) = some (n, rest) := by
  unfold readPower?
  rw [readDigits?_append (Text.ofNat_ne_nil n) (fun _ => Text.isDigit_of_mem_ofNat)
    fun c hc => (hrest c hc).1]
  simp

theorem readSignedPower?_append (plus : Bool) (e : Int) (hrest : EndsNumber rest) :
    readSignedPower? (Numeral.exponentText plus e ++ rest) = some (e, rest) := by
  have hread := readPower?_append e.natAbs hrest
  unfold Numeral.exponentText
  by_cases he : e < 0
  · have hneg : -(e.natAbs : Int) = e := by omega
    rw [if_pos he]
    show (readPower? (Text.ofNat e.natAbs ++ rest)).map _ = _
    rw [hread, Option.map_some, hneg]
  · have hpos : (e.natAbs : Int) = e := by omega
    cases plus with
    | true =>
      rw [if_neg he, if_pos rfl]
      show (readPower? (Text.ofNat e.natAbs ++ rest)).map _ = _
      rw [hread, Option.map_some, hpos]
    | false =>
      obtain ⟨c, digits, hdigits, hc, -⟩ := Text.exists_ofNat e.natAbs
      simp only [he, if_false, Bool.false_eq_true, List.nil_append]
      rw [hdigits, List.cons_append] at hread ⊢
      unfold readSignedPower?
      split
      · rename_i heq
        cases heq
        cases hc
      · rename_i heq
        cases heq
        cases hc
      · rw [hread, Option.map_some, hpos]

theorem readExponent?_append (exponent : Option Int) (plus : Bool) (hrest : EndsNumber rest) :
    readExponent? (Numeral.exponentPart exponent plus ++ rest) = some (exponent, rest) := by
  cases exponent with
  | none =>
    cases rest with
    | nil => rfl
    | cons c rest =>
      have hc := hrest c rfl
      show readExponent? (c :: rest) = _
      rw [readExponent?, if_neg (not_or.mpr hc.2.2)]
  | some e =>
    show readExponent? ('e' :: (Numeral.exponentText plus e ++ rest)) = _
    rw [readExponent?, if_pos (.inl rfl), readSignedPower?_append plus e hrest, Option.map_some]

/-- What stands behind the digits of a fraction is no digit. -/
theorem isDigit_of_head_exponentPart_append (exponent : Option Int) (plus : Bool)
    (hrest : EndsNumber rest) :
    ∀ c ∈ (Numeral.exponentPart exponent plus ++ rest).head?, c.isDigit = false := by
  cases exponent with
  | none => exact fun c hc => (hrest c hc).1
  | some e =>
    rintro _ ⟨⟩
    rfl

theorem readFraction?_append {fraction : Option Text} (hne : fraction ≠ some [])
    (hfraction : ∀ u ∈ fraction, ∀ c ∈ u, c.isDigit = true) (exponent : Option Int) (plus : Bool)
    (hrest : EndsNumber rest) :
    readFraction? (Numeral.fractionPart fraction ++ (Numeral.exponentPart exponent plus ++ rest)) =
      some (fraction, Numeral.exponentPart exponent plus ++ rest) := by
  have htail := isDigit_of_head_exponentPart_append exponent plus hrest
  cases fraction with
  | none =>
    show readFraction? (Numeral.exponentPart exponent plus ++ rest) = _
    unfold readFraction?
    split
    · rename_i more heq
      cases exponent with
      | none =>
        have hrest : rest = '.' :: more := heq
        subst hrest
        exact absurd rfl (hrest '.' rfl).2.1
      | some e => cases heq
    · rfl
  | some u =>
    show (readDigits? (u ++ _)).map _ = _
    rw [readDigits?_append (by rintro rfl; exact hne rfl) (hfraction u rfl) htail, Option.map_some]

/-- **The parts of a numeral are read**, up to what ends it. -/
theorem readNumberParts?_append {n : Numeral} (hn : n.Standard)
    (hwhole : ∀ c ∈ n.whole, c.isDigit = true)
    (hfraction : ∀ u ∈ n.fraction, ∀ c ∈ u, c.isDigit = true) (negative : Bool)
    (hrest : EndsNumber rest) :
    readNumberParts? (Numeral.sign negative ++ n.text ++ rest) =
      some (⟨negative, n.whole, n.fraction, n.exponent⟩, rest) := by
  have htail : ∀ c ∈ (Numeral.fractionPart n.fraction ++
      (Numeral.exponentPart n.exponent n.plus ++ rest)).head?, c.isDigit = false := by
    cases n.fraction with
    | none => exact isDigit_of_head_exponentPart_append n.exponent n.plus hrest
    | some u =>
      rintro _ ⟨⟩
      rfl
  have hread : ∀ negative, readUnsigned? negative (n.text ++ rest) =
      some (⟨negative, n.whole, n.fraction, n.exponent⟩, rest) := by
    intro negative
    unfold readUnsigned? Numeral.text
    rw [List.append_assoc, List.append_assoc, readWhole?_append hn hwhole htail]
    simp only [Option.bind_eq_bind, Option.bind_some,
      readFraction?_append hn.fraction hfraction _ _ hrest, readExponent?_append _ _ hrest]
    rfl
  cases negative with
  | true => exact hread true
  | false =>
    obtain ⟨c, w, hw, -⟩ := hn.begins
    have hc : c.isDigit = true := hwhole c (by rw [hw]; exact List.mem_cons_self ..)
    show readNumberParts? (n.text ++ rest) = _
    rw [← hread false]
    unfold readNumberParts?
    split
    · rename_i heq
      unfold Numeral.text at heq
      rw [hw] at heq
      cases heq
      cases hc
    · rfl

/-- A number with a point or an exponent has the value of its digits and its exponent. -/
theorem value?_of_sound {n : Numeral} (hn : n.Sound) (negative : Bool) :
    NumberParts.value? ⟨negative, n.whole, n.fraction, n.exponent⟩ =
      match Floating.ofDecimal double negative n.digits n.power with
      | .infinite _ => none
      | x => some (.float double x) := by
  have hint : (n.fraction.isNone && n.exponent.isNone) = false := by
    rcases hn.noInteger with hsome | hsome
    · rw [Option.isNone_eq_false_iff.mpr hsome, Bool.false_and]
    · rw [Option.isNone_eq_false_iff.mpr hsome, Bool.and_false]
  unfold NumberParts.value?
  simp only [hint, Bool.false_and, Bool.false_eq_true, if_false, hn.readNat?, Option.getD_some]
  rfl

/-- The digits of an integer that fits 64 bits have its value. -/
theorem value?_natAbs {k : Int} (hlow : -(2 ^ 63) ≤ k) (hhigh : k < 2 ^ 64) :
    NumberParts.value? ⟨decide (k < 0), Text.ofNat k.natAbs, none, none⟩ = some (.int k) := by
  have hvalue : (if k < 0 then -(k.natAbs : Int) else k.natAbs) = k := by
    split <;> omega
  have hint : (if k < 0 then k.natAbs ≠ 0 ∧ k.natAbs ≤ 2 ^ 63 else k.natAbs < 2 ^ 64) := by
    split <;> omega
  unfold NumberParts.value?
  simp only [readNat?_ofNat, Option.getD_some, decide_eq_true_eq, hvalue]
  rw [if_pos]
  split at hint <;> simp_all

/-- What JSON holds of an integer is read as the integer. -/
theorem readNumberParts?_ofInt {k : Int} (hlow : -(2 ^ 63) ≤ k) (hhigh : k < 2 ^ 64)
    (hrest : EndsNumber rest) :
    ((readNumberParts? (Text.ofInt k ++ rest)).bind fun p => p.1.value?.map fun d => (d, p.2)) =
      some (.int k, rest) := by
  obtain ⟨c, digits, hdigits, -, hlead⟩ := Text.exists_ofNat k.natAbs
  have hstandard : Numeral.Standard ⟨Text.ofNat k.natAbs, none, none, false⟩ :=
    ⟨⟨c, digits, hdigits, fun hc => (hlead hc).2⟩, nofun⟩
  have hparts := readNumberParts?_append hstandard (fun c hc => Text.isDigit_of_mem_ofNat hc) nofun
    (decide (k < 0)) hrest
  have hwritten : Text.ofInt k =
      Numeral.sign (decide (k < 0)) ++ Numeral.text ⟨Text.ofNat k.natAbs, none, none, false⟩ := by
    rw [ofInt_eq_sign]
    simp [Numeral.text, Numeral.fractionPart, Numeral.exponentPart]
  rw [hwritten, hparts, Option.bind_some, value?_natAbs hlow hhigh, Option.map_some]

/-! ### Strings -/

theorem readHex4?_control {n : Nat} (hn : n < 0x20) (more : Text) :
    readHex4? ('0' :: '0' :: hexDigit (n / 16) :: hexDigit n :: more) = some (n, more) := by
  have hdigit : ∀ n < 0x20, hexValue? (hexDigit n) = some (n % 16) := by decide
  have hzero : hexValue? '0' = some 0 := rfl
  unfold readHex4?
  simp only [hzero, hdigit n hn, hdigit (n / 16) (by omega)]
  congr 2
  omega

/-- A control character is read from its number. -/
theorem readUnicodeEscape?_control {c : Char} (hc : c.toNat < 0x20) (more : Text) :
    readUnicodeEscape? ('0' :: '0' :: hexDigit (c.toNat / 16) :: hexDigit c.toNat :: more) =
      some (c, more) := by
  unfold readUnicodeEscape?
  rw [readHex4?_control hc]
  simp only
  rw [if_neg (by omega), if_neg (by omega), Char.ofNat_toNat]

/-- An escaped character is read as the character. -/
theorem readStringRest?_escapeChar (c : Char) (fuel : Nat) (done more : Text) :
    readStringRest? (fuel + 1) done (escapeChar c ++ more) =
      readStringRest? fuel (c :: done) more := by
  unfold escapeChar
  -- the seven short escapes
  iterate 7
    split
    · subst c
      rfl
  split
  · rename_i hcontrol
    simp [readStringRest?, readEscape?, readUnicodeEscape?_control hcontrol]
  · rename_i hquote hbackslash _ _ _ _ _ hcontrol
    simp [readStringRest?, hquote, hbackslash, hcontrol]

theorem readStringRest?_flatMap (t done : Text) {fuel : Nat} (hfuel : t.length < fuel) :
    readStringRest? fuel done (t.flatMap escapeChar ++ '"' :: rest) =
      some (done.reverse ++ t, rest) := by
  induction t generalizing done fuel with
  | nil =>
    obtain ⟨fuel, rfl⟩ : ∃ n, fuel = n + 1 := ⟨fuel - 1, by omega⟩
    simp [readStringRest?]
  | cons c t ih =>
    rw [List.length_cons] at hfuel
    obtain ⟨fuel, rfl⟩ : ∃ n, fuel = n + 1 := ⟨fuel - 1, by omega⟩
    rw [List.flatMap_cons, List.append_assoc, readStringRest?_escapeChar, ih _ (by omega)]
    simp

theorem writeText_append (t rest : Text) :
    writeText t ++ rest = '"' :: (t.flatMap escapeChar ++ '"' :: rest) := by
  simp [writeText]

/-- **A string is read back** behind its opening quote. -/
theorem readStringRest?_writeText (t rest : Text) :
    readStringRest? ('"' :: (t.flatMap escapeChar ++ '"' :: rest)).length []
      (t.flatMap escapeChar ++ '"' :: rest) = some (t, rest) := by
  have hlength : t.length ≤ (t.flatMap escapeChar).length := by
    induction t with
    | nil => exact Nat.le_refl _
    | cons c t ih =>
      have hc : 0 < (escapeChar c).length := by
        unfold escapeChar
        repeat' split
        all_goals exact Nat.succ_pos _
      rw [List.flatMap_cons, List.length_append, List.length_cons]
      omega
  refine readStringRest?_flatMap t [] ?_
  rw [List.length_cons, List.length_append]
  omega

end NotePress.Json
