import NotePress.Number.Shortest
import NotePress.Text.Basic

/-!
# Writing numbers

A layout says how a shortest decimal is written: how ties go, where positional notation ends, what
follows a whole number, and how infinities and what is not a number are spelled.
-/

namespace NotePress

/-- How a floating-point number is written. -/
structure NumberLayout where
  tie : Tie
  /-- Bounds on the power of ten of the first digit between which notation is positional; none if it
  always is. -/
  positional : Option (Int × Int)
  /-- What follows a whole number in positional notation. -/
  wholeMark : Text
  /-- The sign of an exponent that is not negative. -/
  exponentPlus : Text
  infinity : Text
  negativeInfinity : Text
  nan : Text

namespace NumberLayout

/-- Positional notation of `digits · 10 ^ exponent`. -/
def writePositional (l : NumberLayout) (d : Decimal) : Text :=
  let digits := Text.ofNat d.digits
  if 0 ≤ d.exponent then digits ++ List.replicate d.exponent.toNat '0' ++ l.wholeMark
  else
    let places := (-d.exponent).toNat
    let padded := List.replicate (places + 1 - digits.length) '0' ++ digits
    padded.take (padded.length - places) ++ '.' :: padded.drop (padded.length - places)

/-- Notation with one digit in front of the point and an exponent. -/
def writeExponent (l : NumberLayout) (d : Decimal) : Text :=
  let digits := Text.ofNat d.digits
  let power := d.exponent + (digits.length : Int) - 1
  let fraction := match digits.tail with
    | [] => []
    | rest => '.' :: rest
  digits.take 1 ++ fraction ++ 'e' ::
    (if power < 0 then '-' :: Text.ofNat power.natAbs
      else l.exponentPlus ++ Text.ofNat power.natAbs)

/-- Writes a decimal without its sign. -/
def writeDecimal (l : NumberLayout) (d : Decimal) : Text :=
  let power := d.exponent + ((Text.ofNat d.digits).length : Int) - 1
  match l.positional with
  | none => l.writePositional d
  | some (low, high) =>
    if d.digits = 0 ∨ (low ≤ power ∧ power < high) then l.writePositional d else l.writeExponent d

/-- Writes a number of a format. -/
def write (l : NumberLayout) (f : BinaryFormat) : Floating → Text
  | .nan => l.nan
  | .infinite negative => if negative then l.negativeInfinity else l.infinity
  | .finite negative m e =>
    (if negative then ['-'] else []) ++ l.writeDecimal (shortestDecimal l.tie f m e)

/-- Numbers in arguments are positional, and whole numbers have no point. Ties go away from zero. -/
def argument : NumberLayout :=
  ⟨.away, none, [], [], "inf".toList, "-inf".toList, "NaN".toList⟩

/-- Numbers in JSON are positional from `1e-6` to below `1e13` and keep a point; infinities and what
is not a number are null. Ties go to even digits. -/
def json : NumberLayout :=
  ⟨.even, some (-6, 13), ".0".toList, ['+'], "null".toList, "null".toList, "null".toList⟩

/-- Numbers in YAML differ from those in JSON in the exponent's sign, which is left out, and in the
names of the special values. -/
def yaml : NumberLayout :=
  ⟨.even, some (-6, 13), ".0".toList, [], ".inf".toList, "-.inf".toList, ".nan".toList⟩

end NumberLayout

end NotePress
