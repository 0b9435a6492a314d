import NotePress.Text.Blank

/-!
# UTF-8

The bytes of a text, the strict decoder that refuses malformed bytes, and the lossy decoder that
puts one `U+FFFD` for each maximal ill-formed part. Byte offsets into a text are sums of the widths
of the characters in front.
-/

namespace NotePress.Text

/-- The number of bytes a text takes. -/
def byteLength : Text → Nat
  | [] => 0
  | c :: cs => c.utf8Size + byteLength cs

@[simp] theorem byteLength_nil : byteLength [] = 0 := rfl

@[simp] theorem byteLength_cons (c : Char) (t : Text) :
    byteLength (c :: t) = c.utf8Size + byteLength t := rfl

@[simp] theorem byteLength_append (a b : Text) :
    byteLength (a ++ b) = byteLength a + byteLength b := by
  induction a with
  | nil => simp
  | cons c a ih => simp [ih, Nat.add_assoc]

/-- The bytes of one character. -/
def encodeChar (c : Char) : List UInt8 :=
  let n := c.toNat
  if n < 0x80 then [n.toUInt8]
  else if n < 0x800 then [(0xC0 + n / 0x40).toUInt8, (0x80 + n % 0x40).toUInt8]
  else if n < 0x10000 then
    [(0xE0 + n / 0x1000).toUInt8, (0x80 + n / 0x40 % 0x40).toUInt8, (0x80 + n % 0x40).toUInt8]
  else
    [(0xF0 + n / 0x40000).toUInt8, (0x80 + n / 0x1000 % 0x40).toUInt8,
     (0x80 + n / 0x40 % 0x40).toUInt8, (0x80 + n % 0x40).toUInt8]

/-- The bytes of a text. -/
def encode (t : Text) : List UInt8 := t.flatMap encodeChar

/-- A character that is still short of continuation bytes. -/
structure PendingChar where
  /-- How many continuation bytes are missing. -/
  missing : Nat
  /-- The least and the greatest value of the next one. -/
  low : Nat
  high : Nat
  /-- The bits read so far. -/
  bits : Nat

/-- What the first byte of a character announces. -/
inductive Lead where
  | ascii (c : Char)
  | multi (p : PendingChar)
  | malformed

/-- Reads the first byte of a character. The bounds on the second byte keep out overlong forms,
surrogates and code points past `U+10FFFF`. -/
def lead (b : UInt8) : Lead :=
  let n := b.toNat
  if n < 0x80 then .ascii (Char.ofNat n)
  else if n < 0xC2 then .malformed
  else if n < 0xE0 then .multi ⟨1, 0x80, 0xBF, n - 0xC0⟩
  else if n < 0xF0 then
    .multi ⟨2, if n = 0xE0 then 0xA0 else 0x80, if n = 0xED then 0x9F else 0xBF, n - 0xE0⟩
  else if n < 0xF5 then
    .multi ⟨3, if n = 0xF0 then 0x90 else 0x80, if n = 0xF4 then 0x8F else 0xBF, n - 0xF0⟩
  else .malformed

/-- Decodes bytes into characters, `none` for each maximal ill-formed part. -/
def decodeParts : Option PendingChar → List UInt8 → List (Option Char)
  | none, [] => []
  | some _, [] => [none]
  | none, b :: bs =>
    match lead b with
    | .ascii c => some c :: decodeParts none bs
    | .multi p => decodeParts (some p) bs
    | .malformed => none :: decodeParts none bs
  | some p, b :: bs =>
    let n := b.toNat
    if p.low ≤ n && n ≤ p.high then
      let bits := p.bits * 0x40 + (n - 0x80)
      if p.missing ≤ 1 then some (Char.ofNat bits) :: decodeParts none bs
      else decodeParts (some ⟨p.missing - 1, 0x80, 0xBF, bits⟩) bs
    else
      none :: match lead b with
        | .ascii c => some c :: decodeParts none bs
        | .multi q => decodeParts (some q) bs
        | .malformed => none :: decodeParts none bs

/-- Decodes bytes; none if any part is ill-formed. -/
def decode? (bytes : List UInt8) : Option Text :=
  (decodeParts none bytes).mapM id

/-- Decodes bytes, with `U+FFFD` for each maximal ill-formed part. -/
def decodeLossy (bytes : List UInt8) : Text :=
  (decodeParts none bytes).map (·.getD '\uFFFD')

end NotePress.Text
