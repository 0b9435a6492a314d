import NotePress.Number.Rounding

/-!
# Floating-point numbers

A floating-point number is a signed multiple of a power of two, an infinity, or not a number. The
values of a format are what `ofQuotient` gives; they are compared and rounded exactly.
-/

namespace NotePress

/-- A floating-point number. -/
inductive Floating where
  | nan
  | infinite (negative : Bool)
  /-- The number `± m · 2 ^ e`. -/
  | finite (negative : Bool) (m : Nat) (e : Int)
  deriving DecidableEq, Repr

namespace Floating

/-- The value of a format nearest to `± n / d`; too great a quotient becomes infinite. -/
def ofQuotient (f : BinaryFormat) (negative : Bool) (n d : Nat) : Floating :=
  match f.round n d with
  | some (m, e) => .finite negative m e
  | none => .infinite negative

/-- The value of a format nearest to `± digits · 10 ^ exponent`. Exponents far outside every format
give zero or infinity at once. -/
def ofDecimal (f : BinaryFormat) (negative : Bool) (digits : Nat) (exponent : Int) : Floating :=
  if digits = 0 then .finite negative 0 f.least
  else if 400 < exponent then .infinite negative
  else if exponent < -400 - (Nat.toDigits 10 digits).length then .finite negative 0 f.least
  else if 0 ≤ exponent then ofQuotient f negative (digits * Nat.pow 10 exponent.toNat) 1
  else ofQuotient f negative digits (Nat.pow 10 (-exponent).toNat)

/-- The value of a format nearest to an integer. -/
def ofInt (f : BinaryFormat) (n : Int) : Floating := ofQuotient f (n < 0) n.natAbs 1

/-- The magnitude `m · 2 ^ e` as a quotient. -/
def magnitude (m : Nat) (e : Int) : Nat × Nat := scaleByPower m 1 (-e)

/-- The value of another format nearest to a number. -/
def convert (f : BinaryFormat) : Floating → Floating
  | .finite negative m e => ofQuotient f negative (magnitude m e).1 (magnitude m e).2
  | x => x

/-- Equality of numbers: the zeros are equal, and what is not a number equals nothing. -/
def same : Floating → Floating → Bool
  | .nan, _ => false
  | _, .nan => false
  | .finite _ 0 _, .finite _ 0 _ => true
  | x, y => x = y

/-- Whether `m · 2 ^ e` is less than `n / d`. -/
def magnitudeLt (m : Nat) (e : Int) (n d : Nat) : Bool :=
  (magnitude m e).1 * d < n * (magnitude m e).2

end Floating

end NotePress
