/-!
# Rounding to binary formats

A binary format keeps a whole number of a fixed bit length and an exponent of two, which is bounded
on both sides. A quotient of natural numbers is rounded to the nearest such value, a tie to the even
one.
-/

namespace NotePress

/-- A format of binary floating-point numbers. -/
structure BinaryFormat where
  /-- The bit length of the whole number. -/
  precision : Nat
  /-- The least exponent. -/
  least : Int
  /-- The greatest exponent. -/
  greatest : Int

/-- The format of 32 bits. -/
def single : BinaryFormat := ⟨24, -149, 104⟩

/-- The format of 64 bits. -/
def double : BinaryFormat := ⟨53, -1074, 971⟩

/-- The whole number nearest to `n / d`, a tie to the even one. -/
def nearestQuotient (n d : Nat) : Nat :=
  let q := n / d
  let r := n % d
  if d < 2 * r ∨ (2 * r = d ∧ q % 2 = 1) then q + 1 else q

/-- The quotient `(n / d) / 2 ^ e` as a quotient of natural numbers. -/
def scaleByPower (n d : Nat) (e : Int) : Nat × Nat :=
  if 0 ≤ e then (n, d * Nat.pow 2 e.toNat) else (n * Nat.pow 2 (-e).toNat, d)

/-- Rounds `n / d` to a format: the whole number and the exponent; none if it is too great. -/
def BinaryFormat.round (f : BinaryFormat) (n d : Nat) : Option (Nat × Int) :=
  if n = 0 then some (0, f.least)
  else
    let low : Int := max f.least ((n.log2 : Int) - d.log2 - f.precision)
    let (ln, ld) := scaleByPower n d low
    let e := if Nat.pow 2 f.precision ≤ ln / ld then low + 1 else low
    let (sn, sd) := scaleByPower n d e
    let m := nearestQuotient sn sd
    let (m, e) := if m = Nat.pow 2 f.precision then (m / 2, e + 1) else (m, e)
    if f.greatest < e then none else some (m, e)

end NotePress
