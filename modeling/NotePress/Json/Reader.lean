import NotePress.Data.Basic
import NotePress.Text.Digit

/-!
# Reading JSON

Settings are read as YAML, of which JSON is a part; here is JSON alone, as other programs read it. A
text is one value with blanks around it. Of equal keys in an object the last one counts. Whole
numbers within 64 bits are integers; other numbers are floating-point numbers of 64 bits and have to
be finite, and minus zero is one of them. Every step takes at least one character, so the length of
the text is enough fuel.
-/

namespace NotePress.Json

/-- A blank between tokens. -/
def isGap (c : Char) : Bool := c = ' ' || c = '\n' || c = '\r' || c = '\t'

/-- Drops blanks between tokens. -/
def dropGap (t : Text) : Text := t.dropWhile isGap

/-- The value of a hexadecimal digit. -/
def hexValue? (c : Char) : Option Nat :=
  if c.isDigit then some (c.toNat - '0'.toNat)
  else if 'a' ≤ c ∧ c ≤ 'f' then some (c.toNat - 'a'.toNat + 10)
  else if 'A' ≤ c ∧ c ≤ 'F' then some (c.toNat - 'A'.toNat + 10)
  else none

/-- Reads four hexadecimal digits. -/
def readHex4? : Text → Option (Nat × Text)
  | a :: b :: c :: d :: rest =>
    match hexValue? a, hexValue? b, hexValue? c, hexValue? d with
    | some a, some b, some c, some d => some (((a * 16 + b) * 16 + c) * 16 + d, rest)
    | _, _, _, _ => none
  | _ => none

/-- Reads a character escaped by its number; a pair of surrogates is one character. -/
def readUnicodeEscape? (t : Text) : Option (Char × Text) :=
  match readHex4? t with
  | none => none
  | some (n, rest) =>
    if 0xD800 ≤ n ∧ n < 0xDC00 then
      match rest with
      | '\\' :: 'u' :: rest =>
        match readHex4? rest with
        | some (m, rest) =>
          if 0xDC00 ≤ m ∧ m < 0xE000 then
            some (Char.ofNat (0x10000 + (n - 0xD800) * 0x400 + (m - 0xDC00)), rest)
          else none
        | none => none
      | _ => none
    else if 0xDC00 ≤ n ∧ n < 0xE000 then none
    else some (Char.ofNat n, rest)

/-- Reads an escape behind its backslash. -/
def readEscape? : Text → Option (Char × Text)
  | '"' :: rest => some ('"', rest)
  | '\\' :: rest => some ('\\', rest)
  | '/' :: rest => some ('/', rest)
  | 'b' :: rest => some ('\x08', rest)
  | 'f' :: rest => some ('\x0c', rest)
  | 'n' :: rest => some ('\n', rest)
  | 'r' :: rest => some ('\r', rest)
  | 't' :: rest => some ('\t', rest)
  | 'u' :: rest => readUnicodeEscape? rest
  | _ => none

/-- Reads the rest of a string up to its closing quote; `done` is what was read, reversed. -/
def readStringRest? : (fuel : Nat) → (done : Text) → Text → Option (Text × Text)
  | 0, _, _ => none
  | _, _, [] => none
  | fuel + 1, done, c :: rest =>
    if c = '"' then some (done.reverse, rest)
    else if c = '\\' then
      match readEscape? rest with
      | some (e, rest) => readStringRest? fuel (e :: done) rest
      | none => none
    else if c.toNat < 0x20 then none
    else readStringRest? fuel (c :: done) rest

/-- The digits of a number: whole part, fraction and exponent. -/
structure NumberParts where
  negative : Bool
  whole : Text
  fraction : Option Text
  exponent : Option Int

/-- Reads one or more digits. -/
def readDigits? (t : Text) : Option (Text × Text) :=
  match t.takeWhile Char.isDigit with
  | [] => none
  | digits => some (digits, t.dropWhile Char.isDigit)

/-- Reads the whole part of a number, which has no leading zero. -/
def readWhole? (t : Text) : Option (Text × Text) :=
  match t with
  | '0' :: rest =>
    match rest with
    | c :: _ => if c.isDigit then none else some (['0'], rest)
    | [] => some (['0'], rest)
  | _ => readDigits? t

/-- Reads what stands behind a point, if there is one. -/
def readFraction? (t : Text) : Option (Option Text × Text) :=
  match t with
  | '.' :: rest => (readDigits? rest).map fun p => (some p.1, p.2)
  | _ => some (none, t)

/-- Reads the digits of an exponent. -/
def readPower? (t : Text) : Option (Nat × Text) :=
  (readDigits? t).map fun p => ((readNat? p.1).getD 0, p.2)

/-- Reads an exponent behind its mark. -/
def readSignedPower? (t : Text) : Option (Int × Text) :=
  match t with
  | '-' :: rest => (readPower? rest).map fun p => (-(p.1 : Int), p.2)
  | '+' :: rest => (readPower? rest).map fun p => ((p.1 : Int), p.2)
  | _ => (readPower? t).map fun p => ((p.1 : Int), p.2)

/-- Reads an exponent, if there is one. -/
def readExponent? (t : Text) : Option (Option Int × Text) :=
  match t with
  | c :: rest =>
    if c = 'e' ∨ c = 'E' then (readSignedPower? rest).map fun p => (some p.1, p.2)
    else some (none, t)
  | [] => some (none, t)

/-- Reads a number's parts behind its sign. -/
def readUnsigned? (negative : Bool) (t : Text) : Option (NumberParts × Text) := do
  let (whole, t) ← readWhole? t
  let (fraction, t) ← readFraction? t
  let (exponent, t) ← readExponent? t
  return (⟨negative, whole, fraction, exponent⟩, t)

/-- Reads a number's parts. -/
def readNumberParts? (t : Text) : Option (NumberParts × Text) :=
  match t with
  | '-' :: rest => readUnsigned? true rest
  | _ => readUnsigned? false t

/-- The value of a number; none if it is too great. -/
def NumberParts.value? (p : NumberParts) : Option Data :=
  let whole := (readNat? p.whole).getD 0
  let isInt := p.fraction.isNone && p.exponent.isNone &&
    (if p.negative then whole ≠ 0 && whole ≤ Nat.pow 2 63 else whole < Nat.pow 2 64)
  if isInt then some (.int (if p.negative then -(whole : Int) else whole))
  else
    let fraction := p.fraction.getD []
    let digits := (readNat? (p.whole ++ fraction)).getD 0
    match Floating.ofDecimal double p.negative digits (p.exponent.getD 0 - fraction.length) with
    | .infinite _ => none
    | x => some (.float double x)

/-- Puts an entry into an object in place of one with the same key. -/
def insertKey (entries : List (Data × Data)) (key : Text) (value : Data) : List (Data × Data) :=
  if entries.any fun e => e.1.spells key then
    entries.map fun e => if e.1.spells key then (e.1, value) else e
  else entries ++ [(.text key, value)]

mutual
/-- Reads a value; blanks in front of it are gone. -/
def readValue? : Nat → Text → Option (Data × Text)
  | 0, _ => none
  | fuel + 1, t =>
    match t with
    | '"' :: rest => (readStringRest? t.length [] rest).map fun p => (.text p.1, p.2)
    | '[' :: rest =>
      match dropGap rest with
      | ']' :: rest => some (.list [], rest)
      | rest => (readItems? fuel [] rest).map fun p => (.list p.1, p.2)
    | '\x7b' :: rest =>
      match dropGap rest with
      | '\x7d' :: rest => some (.map [], rest)
      | rest => (readEntries? fuel [] rest).map fun p => (.map p.1, p.2)
    | 'n' :: 'u' :: 'l' :: 'l' :: rest => some (.null, rest)
    | 't' :: 'r' :: 'u' :: 'e' :: rest => some (.bool true, rest)
    | 'f' :: 'a' :: 'l' :: 's' :: 'e' :: rest => some (.bool false, rest)
    | _ => (readNumberParts? t).bind fun p => p.1.value?.map fun d => (d, p.2)

/-- Reads the items of a list up to its bracket; `done` holds those read, reversed. -/
def readItems? : Nat → List Data → Text → Option (List Data × Text)
  | 0, _, _ => none
  | fuel + 1, done, t =>
    match readValue? fuel t with
    | none => none
    | some (d, rest) =>
      match dropGap rest with
      | ',' :: rest => readItems? fuel (d :: done) (dropGap rest)
      | ']' :: rest => some ((d :: done).reverse, rest)
      | _ => none

/-- Reads the entries of an object up to its brace. -/
def readEntries? : Nat → List (Data × Data) → Text → Option (List (Data × Data) × Text)
  | 0, _, _ => none
  | fuel + 1, done, t =>
    match t with
    | '"' :: rest =>
      match readStringRest? t.length [] rest with
      | none => none
      | some (key, rest) =>
        match dropGap rest with
        | ':' :: rest =>
          match readValue? fuel (dropGap rest) with
          | none => none
          | some (value, rest) =>
            let done := insertKey done key value
            match dropGap rest with
            | ',' :: rest => readEntries? fuel done (dropGap rest)
            | '\x7d' :: rest => some (done, rest)
            | _ => none
        | _ => none
    | _ => none
end

/-- Reads a text that is one value. -/
def read? (t : Text) : Option Data :=
  match readValue? (t.length + 1) (dropGap t) with
  | some (d, rest) => if dropGap rest = [] then some d else none
  | none => none

end NotePress.Json
