import NotePress.Number.Floating

/-!
# The shortest decimal

The shortest decimal of a floating-point number has the fewest digits among those that round to it,
and is the nearest to it among these. For one digit, two digits and so on, the two neighbours of
the number on the grid of decimals with so many digits are tried; the first grid with a hit wins.
Where two of them are equally near, a rule for ties decides.
-/

namespace NotePress

/-- A decimal `digits · 10 ^ exponent`. -/
structure Decimal where
  digits : Nat
  exponent : Int
  deriving DecidableEq, Repr

/-- Which of two equally near decimals is taken. -/
inductive Tie where
  | even
  /-- The one further away from zero. -/
  | away
  deriving DecidableEq, Repr

/-- The decimals that round to `m · 2 ^ e`, in quarters of `2 ^ e`: the two ends, which count if `m`
is even. Below a power of two the next value is half as far away. -/
def roundingInterval (f : BinaryFormat) (m : Nat) (e : Int) : Nat × Nat :=
  (if m = Nat.pow 2 (f.precision - 1) ∧ f.least < e then 4 * m - 1 else 4 * m - 2, 4 * m + 2)

/-- Whether a grid point `c · 10 ^ t` rounds to `m · 2 ^ e`. -/
def roundsTo (f : BinaryFormat) (m : Nat) (e : Int) (c : Nat) (t : Int) : Bool :=
  let (low, high) := roundingInterval f m e
  let (gn, gd) := if 0 ≤ t then (c * Nat.pow 10 t.toNat, 1) else (c, Nat.pow 10 (-t).toNat)
  let (qn, qd) := scaleByPower gn gd (e - 2)
  if m % 2 = 0 then low * qd ≤ qn && qn ≤ high * qd else low * qd < qn && qn < high * qd

/-- The power of ten of the first digit of `n / d`: the greatest `k` with `10 ^ k ≤ n / d`. -/
def leadingPower (n d : Nat) : Int :=
  let whole := (Nat.toDigits 10 (n / d)).length
  if d ≤ n then (whole : Int) - 1
  else
    -- below one: the quotient `d / n` has as many digits as zeros lead, or one more
    let zeros := (Nat.toDigits 10 (d / n)).length
    if d ≤ n * Nat.pow 10 (zeros - 1) then -((zeros : Int) - 1) else -(zeros : Int)

/-- The grid point with a spacing of `10 ^ t` below `n / d`, and whether the one above is nearer or
wins the tie. -/
def gridBelow (tie : Tie) (n d : Nat) (t : Int) : Nat × Bool :=
  let (qn, qd) := if 0 ≤ t then (n, d * Nat.pow 10 t.toNat) else (n * Nat.pow 10 (-t).toNat, d)
  let below := qn / qd
  let r := qn % qd
  (below, qd < 2 * r || (2 * r = qd && (tie = .away || below % 2 = 1)))

/-- The decimal of at most so many digits that rounds to `m · 2 ^ e`, if there is one. -/
def decimalOfLength? (tie : Tie) (f : BinaryFormat) (m : Nat) (e : Int) (length : Nat) :
    Option Decimal :=
  let (n, d) := Floating.magnitude m e
  let t := leadingPower n d - ((length : Int) - 1)
  let (below, up) := gridBelow tie n d t
  let near := if up then below + 1 else below
  let far := if up then below else below + 1
  if roundsTo f m e near t then some ⟨near, t⟩
  else if roundsTo f m e far t then some ⟨far, t⟩
  else none

/-- Moves zeros at the end of the digits into the exponent; at most `fuel` of them. -/
def Decimal.trimZeros (d : Decimal) : Nat → Decimal
  | 0 => d
  | fuel + 1 =>
    if d.digits ≠ 0 ∧ d.digits % 10 = 0 then trimZeros ⟨d.digits / 10, d.exponent + 1⟩ fuel else d

/-- The most digits that a shortest decimal can need. -/
def BinaryFormat.digitLimit (f : BinaryFormat) : Nat := f.precision * 302 / 1000 + 2

/-- The shortest decimal of `m · 2 ^ e`. -/
def shortestDecimal (tie : Tie) (f : BinaryFormat) (m : Nat) (e : Int) : Decimal :=
  if m = 0 then ⟨0, 0⟩
  else
    match (List.range' 1 f.digitLimit).findSome? (decimalOfLength? tie f m e) with
    | some d => d.trimZeros (f.digitLimit + 1)
    | none => ⟨0, 0⟩

end NotePress
