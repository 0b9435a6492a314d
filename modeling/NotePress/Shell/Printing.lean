import NotePress.Number.Shortest
import NotePress.Shell.Arithmetic

/-!
# Writing by a format

What `echo` and `printf` write: texts with escapes, and values in the directives of a format, padded
to a width.
-/

namespace NotePress.Shell.Printing

/-- Whether a character is an octal digit. -/
def isOctal (c : Char) : Bool := '0' ≤ c && c ≤ '7'

/-- The number of octal digits. -/
def readOctal (t : Text) : Nat := t.foldl (fun n c => n * 8 + (c.toNat - '0'.toNat)) 0

/-- The octet of a number, which counts modulo 256. -/
def octet (n : Nat) : Char := Char.ofNat (n % 256)

/-- The octet of an escape behind its backslash, and what is left; an escape that there is not is
the backslash itself. -/
def readEscape (t : Text) : Char × Text :=
  match t with
  | [] => ('\\', [])
  | c :: rest =>
    let digits := (t.take 3).takeWhile isOctal
    if digits ≠ [] then (octet (readOctal digits), t.drop digits.length)
    else
      match c with
      | '\\' => ('\\', rest)
      | 'a' => ('\x07', rest)
      | 'b' => ('\x08', rest)
      | 'e' => ('\x1b', rest)
      | 'f' => ('\x0c', rest)
      | 'n' => ('\n', rest)
      | 'r' => ('\r', rest)
      | 't' => ('\t', rest)
      | 'v' => ('\x0b', rest)
      | _ => ('\\', t)

/-- A text with its escapes replaced, and whether `\c` ended all writing. -/
def unescape : Nat → Text → Text × Bool
  | 0, _ => ([], false)
  | _ + 1, [] => ([], false)
  | fuel + 1, c :: rest =>
    let goOn := fun (c : Char) (rest : Text) =>
      let (more, ended) := unescape fuel rest
      (c :: more, ended)
    if c ≠ '\\' then goOn c rest
    else
      match rest with
      | 'c' :: _ => ([], true)
      | '0' :: rest =>
        let digits := (rest.take 3).takeWhile isOctal
        goOn (octet (readOctal digits)) (rest.drop digits.length)
      | rest =>
        let (c, rest) := readEscape rest
        goOn c rest

/-- What `echo` writes of its arguments behind the first ones. -/
def echoFrom : List Text → Text × Bool
  | [] => ([], false)
  | a :: rest =>
    let (t, ended) := unescape (a.length + 1) a
    if ended ∨ rest.isEmpty then (t, ended)
    else
      let (more, ended) := echoFrom rest
      (t ++ ' ' :: more, ended)

/-- What `echo` writes. -/
def echo (args : List Text) : Text :=
  let (noBreak, args) := match args with
    | ['-', 'n'] :: rest => (true, rest)
    | _ => (false, args)
  let (t, ended) := echoFrom args
  if noBreak || ended then t else t ++ ['\n']

/-! ### Directives -/

/-- A directive of a format. -/
structure Directive where
  flags : Text
  width : Nat
  precision : Option Nat
  kind : Char
  deriving Repr

namespace Directive

/-- Whether a flag is set. -/
def has (d : Directive) (flag : Char) : Bool := d.flags.contains flag

/-- Fills a value to the width, behind its sign or mark where it is filled with zeros. -/
def fill (d : Directive) (zeros : Bool) (mark t : Text) : Text :=
  let missing := d.width - (mark.length + t.length)
  if d.has '-' then mark ++ t ++ List.replicate missing ' '
  else if zeros && d.has '0' then mark ++ List.replicate missing '0' ++ t
  else List.replicate missing ' ' ++ mark ++ t

/-- A text, cut to the precision. -/
def writeText (d : Directive) (t : Text) : Text :=
  d.fill false [] (match d.precision with
    | some n => t.take n
    | none => t)

/-- The mark of a number's sign. -/
def sign (d : Directive) (negative : Bool) : Text :=
  if negative then ['-'] else if d.has '+' then ['+'] else if d.has ' ' then [' '] else []

/-- Digits with zeros in front of them, as many as the precision asks for. -/
def padDigits (d : Directive) (digits : Text) : Text :=
  match d.precision with
  | none => digits
  | some n =>
    let digits := if n = 0 ∧ digits = ['0'] then [] else digits
    List.replicate (n - digits.length) '0' ++ digits

/-- A whole number with a sign. -/
def writeInt (d : Directive) (n : Int) : Text :=
  d.fill d.precision.isNone (d.sign (n < 0)) (d.padDigits (Text.ofNat n.natAbs))

/-- A whole number without a sign, of 64 bits. -/
def writeNat (d : Directive) (n : Nat) : Text :=
  let digits := match d.kind with
    | 'o' => Nat.toDigits 8 n
    | 'x' => Nat.toDigits 16 n
    | 'X' => (Nat.toDigits 16 n).map Char.toUpper
    | _ => Text.ofNat n
  let digits := d.padDigits digits
  let digits := if d.has '#' ∧ d.kind = 'o' ∧ digits.head? ≠ some '0' then '0' :: digits else digits
  let mark := if d.has '#' ∧ n ≠ 0 ∧ (d.kind = 'x' ∨ d.kind = 'X') then ['0', d.kind] else []
  d.fill d.precision.isNone mark digits

/-! ### Floating-point numbers -/

/-- Digits with a point in front of the last `places` of them. -/
def withPoint (alternative : Bool) (digits : Text) (places : Nat) : Text :=
  let digits := List.replicate (places + 1 - digits.length) '0' ++ digits
  let whole := digits.take (digits.length - places)
  let fraction := digits.drop (digits.length - places)
  if places = 0 then if alternative then whole ++ ['.'] else whole else whole ++ '.' :: fraction

/-- `n / d` with so many places. -/
def fixed (alternative : Bool) (n d places : Nat) : Text :=
  withPoint alternative (Text.ofNat (nearestQuotient (n * Nat.pow 10 places) d)) places

/-- The digits of `n / d` with `places + 1` of them, and the power of ten of the first one. -/
def scaled (n d places : Nat) : Text × Int :=
  if n = 0 then (List.replicate (places + 1) '0', 0)
  else
    let power := leadingPower n d
    let shift := (places : Int) - power
    let (sn, sd) :=
      if 0 ≤ shift then (n * Nat.pow 10 shift.toNat, d) else (n, d * Nat.pow 10 (-shift).toNat)
    let digits := Text.ofNat (nearestQuotient sn sd)
    if digits.length = places + 2 then (digits.take (places + 1), power + 1) else (digits, power)

/-- An exponent with a sign and two digits or more. -/
def exponent (mark : Char) (power : Int) : Text :=
  let digits := Text.ofNat power.natAbs
  mark :: (if power < 0 then '-' else '+') :: List.replicate (2 - digits.length) '0' ++ digits

/-- `n / d` with one digit in front of the point and so many places. -/
def scientific (alternative : Bool) (mark : Char) (n d places : Nat) : Text :=
  let (digits, power) := scaled n d places
  withPoint alternative digits places ++ exponent mark power

/-- A decimal without the zeros at its end, and without a point there. -/
def trimZeros (t : Text) : Text :=
  if t.contains '.' then Text.dropTail (· = '.') (Text.dropTail (· = '0') t) else t

/-- `n / d` with so many digits, in the shorter of both notations. -/
def general (alternative : Bool) (mark : Char) (n d precision : Nat) : Text :=
  let digits := max precision 1
  let (shown, power) := scaled n d (digits - 1)
  let trim := fun (t : Text) => if alternative then t else trimZeros t
  if -4 ≤ power ∧ power < digits then
    trim (fixed alternative n d ((digits : Int) - 1 - power).toNat)
  else trim (withPoint alternative shown (digits - 1)) ++ exponent mark power

/-- `m · 2 ^ e`, a number of 64 bits, with digits of base 16: one in front of the point, and behind
it as many as there are, or so many places, the last one rounded. -/
def hexadecimal (alternative : Bool) (m : Nat) (e : Int) (places : Option Nat) : Text :=
  let shown := places.getD 13
  let rounded := nearestQuotient m (Nat.pow 16 (13 - shown)) * Nat.pow 16 (shown - 13)
  let digits := Nat.toDigits 16 (rounded % Nat.pow 16 shown)
  let fraction :=
    if shown = 0 then [] else List.replicate (shown - digits.length) '0' ++ digits
  let fraction := if places.isNone then Text.dropTail (· = '0') fraction else fraction
  let point := if fraction ≠ [] ∨ alternative then ['.'] else []
  let power := if m = 0 then 0 else e + 52
  Text.ofNat (rounded / Nat.pow 16 shown) ++ point ++ fraction ++
    'p' :: (if power < 0 then '-' else '+') :: Text.ofNat power.natAbs

/-- A floating-point number. -/
def writeFloating (d : Directive) (x : Floating) : Text :=
  let upper := d.kind.isUpper
  let special := fun (negative : Bool) (t : String) =>
    d.fill false (d.sign negative) (if upper then t.toList.map Char.toUpper else t.toList)
  match x with
  | .nan => special false "nan"
  | .infinite negative => special negative "inf"
  | .finite negative m e =>
    let (n, q) := Floating.magnitude m e
    let precision := d.precision.getD 6
    let mark := if upper then 'E' else 'e'
    let write := fun (base t : Text) => d.fill true (d.sign negative ++ base) t
    match d.kind.toLower with
    | 'f' => write [] (fixed (d.has '#') n q precision)
    | 'e' => write [] (scientific (d.has '#') mark n q precision)
    | 'a' =>
      let t := hexadecimal (d.has '#') m e d.precision
      if upper then write ['0', 'X'] (t.map Char.toUpper) else write ['0', 'x'] t
    | _ => write [] (general (d.has '#') mark n q precision)

end Directive

/-! ### Arguments -/

/-- Whether a text opens with a word, whatever the case. -/
def dropWord? (w : String) (t : Text) : Option Text :=
  if Text.sameAscii (t.take w.length) w.toList then some (t.drop w.length) else none

/-- Reads digits that may hold a point: the digits, how many stand behind the point, and what is
left. -/
def readPointed (isDigit : Char → Bool) (t : Text) : Text × Nat × Text :=
  let whole := t.takeWhile isDigit
  match t.drop whole.length with
  | '.' :: rest =>
    let fraction := rest.takeWhile isDigit
    (whole ++ fraction, fraction.length, rest.drop fraction.length)
  | rest => (whole, 0, rest)

/-- Reads the power behind a mark; nothing is read if there is none. -/
def readPower (mark : Char) (t : Text) : Int × Text :=
  match t with
  | e :: rest =>
    let (minus, digits) := match rest with
      | '-' :: digits => (true, digits)
      | '+' :: digits => (false, digits)
      | digits => (false, digits)
    match if e.toLower = mark then readNat? (digits.takeWhile Char.isDigit) else none with
    | some n => (if minus then -(n : Int) else n, digits.dropWhile Char.isDigit)
    | none => (0, t)
  | [] => (0, t)

/-- The number of 64 bits nearest to `± n / d`, and whether the quotient is out of their range: too
great, or so small that digits are lost. -/
def nearest (negative : Bool) (n d : Nat) : Floating × Bool :=
  match Floating.ofQuotient double negative n d with
  | .finite negative m e =>
    let (en, ed) := Floating.magnitude m e
    (.finite negative m e, m < 0x10000000000000 ∧ en * d ≠ n * ed)
  | x => (x, true)

/-- The number of 64 bits nearest to `± n · base ^ power`, and whether that is out of their range.
Powers that are out of it whatever the digits are not computed. -/
def nearestScaled (negative : Bool) (n base : Nat) (power : Int) : Floating × Bool :=
  let limit : Int := 1100 + n.log2
  let power := max (-limit) (min limit power)
  if 0 ≤ power then nearest negative (n * Nat.pow base power.toNat) 1
  else nearest negative n (Nat.pow base (-power).toNat)

/-- Reads the digits of a floating-point number, behind `0x` in base 16. -/
def readDigits? (negative : Bool) (t : Text) : Option ((Floating × Bool) × Text) :=
  let marked := match t with
    | '0' :: x :: rest => if x = 'x' ∨ x = 'X' then rest else []
    | _ => []
  let isDigit := fun (c : Char) => Arithmetic.digitValue c < 16
  let (digits, places, rest) := readPointed isDigit marked
  if digits ≠ [] then
    let (power, rest) := readPower 'p' rest
    let n := digits.foldl (fun n c => n * 16 + Arithmetic.digitValue c) 0
    some (nearestScaled negative n 2 (power - 4 * places), rest)
  else
    let (digits, places, rest) := readPointed Char.isDigit t
    let (power, rest) := readPower 'e' rest
    (readNat? digits).map fun n => (nearestScaled negative n 10 (power - places), rest)

/-- Reads a floating-point number at the beginning of a text; says whether it is out of range. -/
def readFloating? (t : Text) : Option ((Floating × Bool) × Text) :=
  let t := t.dropWhile fun c => c = ' ' || ('\t' ≤ c && c ≤ '\r')
  let (negative, t) := match t with
    | '-' :: rest => (true, rest)
    | '+' :: rest => (false, rest)
    | t => (false, t)
  match (dropWord? "infinity" t).or (dropWord? "inf" t) with
  | some rest => some ((.infinite negative, false), rest)
  | none =>
    match dropWord? "nan" t with
    | some rest => some ((.nan, false), rest)
    | none => readDigits? negative t

/-- What was written, what is left of the arguments, and what went wrong. -/
structure Printed where
  /-- What was written, the last part first. -/
  parts : List Text := []
  args : List Text
  complaints : List Text := []
  /-- Whether `\c` ended all writing. -/
  ended : Bool := false

/-- Adds what was written. -/
def Printed.add (p : Printed) (t : Text) : Printed := { p with parts := t :: p.parts }

/-- Takes an argument; an empty one if none is left. -/
def Printed.next (p : Printed) : Text × Printed := (p.args.headD [], { p with args := p.args.tail })

/-- Notes what is wrong with an argument of which a part is not read, or that is out of range. -/
def Printed.check (p : Printed) (t rest : Text) (outside : Bool) : Printed :=
  let complain := fun (what : String) =>
    { p with complaints := p.complaints ++ [t ++ ": ".toList ++ what.toList] }
  if rest ≠ [] then complain "not completely converted"
  else if outside then complain "Numerical result out of range"
  else p

/-- Notes that an argument is no number; an empty one counts as zero. -/
def Printed.checkNone (p : Printed) (t : Text) : Printed :=
  if t = [] then p
  else { p with complaints := p.complaints ++ [t ++ ": expected numeric value".toList] }

/-- The number of words of 64 bits. -/
def wordSize : Nat := 0x10000000000000000

/-- Takes a whole number of 64 bits, with a sign or without; a character behind a quote counts as
its number. What is too great becomes the greatest or the least. -/
def Printed.nextInt (signed : Bool) (p : Printed) : Int × Printed :=
  let (t, p) := p.next
  match t with
  | '"' :: c => ((c.headD '\x00').toNat, p)
  | '\'' :: c => ((c.headD '\x00').toNat, p)
  | t =>
    match Arithmetic.readSigned? t with
    | some (n, rest) =>
      let fitted := if signed then (Arithmetic.clamp n).toInt
        else if n.natAbs < wordSize then n else wordSize - 1
      (fitted, p.check t rest (fitted ≠ n))
    | none => (0, p.checkNone t)

/-- Takes a floating-point number. -/
def Printed.nextFloating (p : Printed) : Floating × Printed :=
  let (t, p) := p.next
  match t with
  | '"' :: c => (Floating.ofInt double (c.headD '\x00').toNat, p)
  | '\'' :: c => (Floating.ofInt double (c.headD '\x00').toNat, p)
  | t =>
    match readFloating? t with
    | some ((x, outside), rest) => (x, p.check t rest outside)
    | none => (.finite false 0 0, p.checkNone t)

/-! ### Formats -/

/-- Reads a width or a precision: digits, or a star for an argument. -/
def readNumber (p : Printed) (t : Text) : Int × Text × Printed :=
  match t with
  | '*' :: rest =>
    let (n, p) := p.nextInt true
    (n, rest, p)
  | t =>
    let digits := t.takeWhile Char.isDigit
    ((((readNat? digits).getD 0 : Nat) : Int), t.drop digits.length, p)

/-- Writes an argument by a directive; none if there is no such directive. -/
def writeValue? (d : Directive) (p : Printed) : Option Printed :=
  match d.kind with
  | 's' =>
    let (t, p) := p.next
    some (p.add (d.writeText t))
  | 'c' =>
    let (t, p) := p.next
    some (p.add (d.fill false [] [t.headD '\x00']))
  | 'b' =>
    let (t, p) := p.next
    let (t, ended) := unescape (t.length + 1) t
    some { p.add (d.writeText t) with ended }
  | kind =>
    if kind = 'd' ∨ kind = 'i' then
      let (n, p) := p.nextInt true
      some (p.add (d.writeInt n))
    else if kind ∈ "ouxX".toList then
      let (n, p) := p.nextInt false
      some (p.add (d.writeNat (n % wordSize).toNat))
    else if kind ∈ "aAeEfFgG".toList then
      let (x, p) := p.nextFloating
      some (p.add (d.writeFloating x))
    else none

/-- Goes once through a format. The flag says whether it was not understood, and what was not. -/
def printOnce : Nat → Text → Printed → Printed × Option Text
  | 0, _, p => (p, none)
  | _ + 1, [], p => (p, none)
  | fuel + 1, '%' :: '%' :: rest, p => printOnce fuel rest (p.add ['%'])
  | fuel + 1, '%' :: rest, p =>
    let flags := rest.takeWhile fun c => c ∈ "#-+ 0".toList
    let t := rest.drop flags.length
    let (width, t, p) := readNumber p t
    let flags := if width < 0 then '-' :: flags else flags
    let (precision, t, p) : Option Nat × Text × Printed := match t with
      | '.' :: t =>
        let (n, t, p) := readNumber p t
        (if n < 0 then none else some n.toNat, t, p)
      | t => (none, t, p)
    match t with
    | [] => (p, some "missing format character".toList)
    | kind :: after =>
      match writeValue? ⟨flags, width.natAbs, precision, kind⟩ p with
      | some p => if p.ended then (p, none) else printOnce fuel after p
      | none =>
        let directive := '%' :: rest.take (rest.length - after.length)
        (p, some (directive ++ ": invalid directive".toList))
  | fuel + 1, '\\' :: rest, p =>
    let (c, rest) := readEscape rest
    printOnce fuel rest (p.add [c])
  | fuel + 1, c :: rest, p =>
    let plain := rest.takeWhile fun c => c ≠ '%' && c ≠ '\\'
    printOnce fuel (rest.drop plain.length) (p.add (c :: plain))

/-- Goes through a format as long as arguments are left. -/
def printAll (layout : Text) : Nat → Printed → Printed × Option Text
  | 0, p => (p, none)
  | fuel + 1, p =>
    let (after, fault) := printOnce (layout.length + 1) layout p
    if fault.isSome ∨ after.ended ∨ after.args = [] ∨ after.args.length = p.args.length then
      (after, fault)
    else printAll layout fuel after

/-- What was written, in order. -/
def Printed.text (p : Printed) : Text := p.parts.reverse.flatten

end NotePress.Shell.Printing
