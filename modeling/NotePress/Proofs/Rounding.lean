import Mathlib.Algebra.Order.Ring.Nat
import NotePress.Number.Rounding

/-!
# Rounding depends on the quotient

A quotient is rounded at the exponent where it fits the precision of a format and no longer does one
below (`BinaryFormat.Fits`); there is only one, and it is found from the bit lengths of the two
numbers, whatever common factor they have. So `BinaryFormat.round` gives the same for `n / d` and
for `(n · k) / (d · k)`, and a decimal is read the same with zeros behind its point or without.
-/

namespace NotePress

theorem scaleByPower_eq (n d : Nat) (e : Int) :
    scaleByPower n d e = (n * 2 ^ (-e).toNat, d * 2 ^ e.toNat) := by
  unfold scaleByPower
  split
  · rename_i h
    rw [show (-e).toNat = 0 by omega, Nat.pow_zero, Nat.mul_one]
    rfl
  · rename_i h
    rw [show e.toNat = 0 by omega, Nat.pow_zero, Nat.mul_one]
    rfl

/-- How often `2 ^ e` goes into `n / d`. -/
def floorAt (n d : Nat) (e : Int) : Nat := (n * 2 ^ (-e).toNat) / (d * 2 ^ e.toNat)

variable {n d k : Nat}

theorem floorAt_mul (hk : 0 < k) (n d : Nat) (e : Int) :
    floorAt (n * k) (d * k) e = floorAt n d e := by
  unfold floorAt
  rw [Nat.mul_right_comm n, Nat.mul_right_comm d, Nat.mul_div_mul_right _ _ hk]

/-- The next power of two goes in half as often. -/
theorem floorAt_succ (n d : Nat) (e : Int) : floorAt n d (e + 1) = floorAt n d e / 2 := by
  unfold floorAt
  rw [Nat.div_div_eq_div_mul, Nat.mul_assoc d, ← Nat.pow_succ]
  by_cases he : 0 ≤ e
  · rw [show (-(e + 1)).toNat = (-e).toNat by omega, show (e + 1).toNat = e.toNat + 1 by omega]
  · rw [show (-e).toNat = (-(e + 1)).toNat + 1 by omega, show (e + 1).toNat = e.toNat by omega,
      Nat.pow_succ, Nat.pow_succ, ← Nat.mul_assoc, ← Nat.mul_assoc,
      Nat.mul_div_mul_right _ _ (by decide)]

theorem floorAt_antitone (n d : Nat) {e e' : Int} (h : e ≤ e') :
    floorAt n d e' ≤ floorAt n d e := by
  obtain ⟨k, rfl⟩ := Int.le.dest h
  induction k with
  | zero => simp
  | succ k ih =>
    have hle := ih (by omega)
    rw [show e + ((k + 1 : Nat) : Int) = e + (k : Int) + 1 by omega, floorAt_succ]
    omega

/-- The bit lengths give how often a power of two goes in, up to one bit. -/
theorem floorAt_log2 {p : Nat} (hn : n ≠ 0) (hd : d ≠ 0) (hp : 0 < p) :
    2 ^ (p - 1) ≤ floorAt n d ((n.log2 : Int) - d.log2 - p) ∧
      floorAt n d ((n.log2 : Int) - d.log2 - p) < 2 ^ (p + 1) := by
  generalize he : (n.log2 : Int) - d.log2 - p = e
  have hexp : n.log2 + (-e).toNat = d.log2 + e.toNat + p := by omega
  have hdpos : 0 < d * 2 ^ e.toNat := Nat.mul_pos (Nat.pos_of_ne_zero hd) (Nat.two_pow_pos _)
  have hnlow := Nat.log2_self_le hn
  have hnhigh : n < 2 ^ (n.log2 + 1) := Nat.lt_log2_self
  have hdlow := Nat.log2_self_le hd
  have hdhigh : d < 2 ^ (d.log2 + 1) := Nat.lt_log2_self
  unfold floorAt
  constructor
  · rw [Nat.le_div_iff_mul_le hdpos]
    calc 2 ^ (p - 1) * (d * 2 ^ e.toNat)
        ≤ 2 ^ (p - 1) * (2 ^ (d.log2 + 1) * 2 ^ e.toNat) :=
          Nat.mul_le_mul_left _ (Nat.mul_le_mul_right _ hdhigh.le)
      _ = 2 ^ n.log2 * 2 ^ (-e).toNat := by
          rw [← Nat.pow_add, ← Nat.pow_add, ← Nat.pow_add, hexp]
          congr 1
          omega
      _ ≤ n * 2 ^ (-e).toNat := Nat.mul_le_mul_right _ hnlow
  · rw [Nat.div_lt_iff_lt_mul hdpos]
    calc n * 2 ^ (-e).toNat
        < 2 ^ (n.log2 + 1) * 2 ^ (-e).toNat := Nat.mul_lt_mul_of_pos_right hnhigh (Nat.two_pow_pos _)
      _ = 2 ^ (p + 1) * (2 ^ d.log2 * 2 ^ e.toNat) := by
          rw [← Nat.pow_add, ← Nat.pow_add, ← Nat.pow_add]
          congr 1
          omega
      _ ≤ 2 ^ (p + 1) * (d * 2 ^ e.toNat) := Nat.mul_le_mul_left _ (Nat.mul_le_mul_right _ hdlow)

/-- An exponent at which a quotient fits a format, and none below does. -/
structure BinaryFormat.Fits (f : BinaryFormat) (n d : Nat) (e : Int) : Prop where
  least : f.least ≤ e
  fits : floorAt n d e < 2 ^ f.precision
  full : e = f.least ∨ 2 ^ (f.precision - 1) ≤ floorAt n d e

theorem BinaryFormat.Fits.unique {f : BinaryFormat} {e e' : Int} (hp : 0 < f.precision)
    (h : f.Fits n d e) (h' : f.Fits n d e') : e = e' := by
  have hlt : ∀ {a b : Int}, f.Fits n d a → f.Fits n d b → ¬a < b := by
    intro a b ha hb hab
    have hfull := hb.full.resolve_left (by have := ha.least; omega)
    have hhalf := floorAt_antitone n d (show a + 1 ≤ b by omega)
    have hfits := ha.fits
    have hpow : 2 ^ f.precision = 2 * 2 ^ (f.precision - 1) := by
      rw [← Nat.pow_succ', Nat.succ_eq_add_one, Nat.sub_add_cancel hp]
    rw [floorAt_succ] at hhalf
    omega
  have := hlt h h'
  have := hlt h' h
  omega

/-- The exponent that rounding takes. -/
def BinaryFormat.exponentOf (f : BinaryFormat) (n d : Nat) : Int :=
  let low : Int := max f.least ((n.log2 : Int) - d.log2 - f.precision)
  if 2 ^ f.precision ≤ floorAt n d low then low + 1 else low

theorem BinaryFormat.fits_exponentOf {f : BinaryFormat} (hp : 0 < f.precision) (hn : n ≠ 0)
    (hd : d ≠ 0) : f.Fits n d (f.exponentOf n d) := by
  obtain ⟨hlow, hhigh⟩ := floorAt_log2 hn hd hp
  generalize hstart : (n.log2 : Int) - d.log2 - f.precision = start at hlow hhigh
  have hpow : 2 ^ f.precision = 2 * 2 ^ (f.precision - 1) := by
    rw [← Nat.pow_succ', Nat.succ_eq_add_one, Nat.sub_add_cancel hp]
  have hpow' : 2 ^ (f.precision + 1) = 2 * 2 ^ f.precision := Nat.pow_succ'
  unfold exponentOf
  simp only [hstart]
  rcases le_total start f.least with hle | hle
  · rw [max_eq_left hle]
    rcases hle.lt_or_eq with hlt | rfl
    · -- a power of two further on, one bit less is needed
      have hhalf := floorAt_antitone n d (show start + 1 ≤ f.least by omega)
      rw [floorAt_succ] at hhalf
      rw [if_neg (by omega)]
      exact ⟨le_rfl, by omega, .inl rfl⟩
    · split
      · exact ⟨by omega, by rw [floorAt_succ]; omega, .inr (by rw [floorAt_succ]; omega)⟩
      · exact ⟨le_rfl, by omega, .inl rfl⟩
  · rw [max_eq_right hle]
    split
    · exact ⟨by omega, by rw [floorAt_succ]; omega, .inr (by rw [floorAt_succ]; omega)⟩
    · exact ⟨hle, by omega, .inr hlow⟩

theorem nearestQuotient_mul (hk : 0 < k) (n d : Nat) :
    nearestQuotient (n * k) (d * k) = nearestQuotient n d := by
  unfold nearestQuotient
  simp only [Nat.mul_div_mul_right _ _ hk, Nat.mul_mod_mul_right, ← Nat.mul_assoc,
    Nat.mul_lt_mul_right hk, Nat.mul_left_inj (Nat.ne_of_gt hk)]

theorem BinaryFormat.round_eq {f : BinaryFormat} (hn : n ≠ 0) :
    f.round n d =
      let e := f.exponentOf n d
      let m := nearestQuotient (n * 2 ^ (-e).toNat) (d * 2 ^ e.toNat)
      let (m, e) := if m = 2 ^ f.precision then (m / 2, e + 1) else (m, e)
      if f.greatest < e then none else some (m, e) := by
  unfold round exponentOf
  rw [if_neg hn]
  simp only [scaleByPower_eq]
  rfl

/-- **Rounding depends on the quotient only.** -/
theorem BinaryFormat.round_mul {f : BinaryFormat} (hp : 0 < f.precision) (hd : d ≠ 0) (hk : 0 < k)
    (n : Nat) : f.round (n * k) (d * k) = f.round n d := by
  by_cases hn : n = 0
  · simp [hn, round]
  · have hnk : n * k ≠ 0 := Nat.mul_ne_zero hn (Nat.ne_of_gt hk)
    have hfits := f.fits_exponentOf hp hnk (Nat.mul_ne_zero hd (Nat.ne_of_gt hk))
    have hsame : f.exponentOf (n * k) (d * k) = f.exponentOf n d := by
      refine Fits.unique hp ⟨hfits.least, ?_, ?_⟩ (f.fits_exponentOf hp hn hd)
      · rw [← floorAt_mul hk]
        exact hfits.fits
      · rw [← floorAt_mul hk]
        exact hfits.full
    have hnearest : ∀ x y,
        nearestQuotient (n * k * x) (d * k * y) = nearestQuotient (n * x) (d * y) :=
      fun x y => by rw [Nat.mul_right_comm n, Nat.mul_right_comm d, nearestQuotient_mul hk]
    rw [round_eq hnk, round_eq hn, hsame]
    simp only [hnearest]

end NotePress
