import NotePress.Data.Basic
import NotePress.Text.Digit
import NotePress.Text.Basic
import NotePress.Text.Utf8

/-!
# What plain scalars mean

A plain scalar is null, a truth value, an integer, a floating-point number of 64 bits, or else text.
Integers may be written with a sign and in base 16, 8 or 2; digits behind a leading zero are text.
An integer has to fit 64 bits: one that needs up to 128 is refused, a longer one is read as a
floating-point number.
-/

namespace NotePress.Yaml

/-- The value of a digit in a base up to sixteen. -/
def digitValue? (base : Nat) (c : Char) : Option Nat :=
  let v := if c.isDigit then some (c.toNat - '0'.toNat)
    else if 'a' ≤ c ∧ c ≤ 'f' then some (c.toNat - 'a'.toNat + 10)
    else if 'A' ≤ c ∧ c ≤ 'F' then some (c.toNat - 'A'.toNat + 10)
    else none
  v.filter (· < base)

/-- The value of one or more digits. -/
def readBase? (base : Nat) (t : Text) : Option Nat :=
  if t = [] then none
  else
    t.foldl (fun acc c => acc.bind fun n => (digitValue? base c).map fun d => n * base + d) (some 0)

/-- Whether a scalar is null. -/
def isNull (t : Text) : Bool := ["null", "Null", "NULL", "~"].any fun s => s.toList = t

/-- The truth value of a scalar. -/
def bool? (t : Text) : Option Bool :=
  if ["true", "True", "TRUE"].any fun s => s.toList = t then some true
  else if ["false", "False", "FALSE"].any fun s => s.toList = t then some false
  else none

/-- Drops one sign. -/
def dropSign (t : Text) : Text :=
  match t with
  | '-' :: rest => rest
  | '+' :: rest => rest
  | _ => t

/-- Digits behind a leading zero. -/
def isPaddedDigits (t : Text) : Bool :=
  match dropSign t with
  | '0' :: c :: rest => (c :: rest).all Char.isDigit
  | _ => false

/-- The magnitude of an integer without its sign, with or without a mark of its base. -/
def magnitude? (t : Text) : Option Nat :=
  let marked := match t with
    | '0' :: 'x' :: rest => readBase? 16 rest
    | '0' :: 'o' :: rest => readBase? 8 rest
    | '0' :: 'b' :: rest => readBase? 2 rest
    | _ => none
  marked.or (if isPaddedDigits t then none else readBase? 10 t)

/-- The integer that a scalar writes, below the given bound on its bits. -/
def intWithin? (bits : Nat) (t : Text) : Option Int :=
  match t with
  | '-' :: rest => ((magnitude? rest).filter (· ≤ Nat.pow 2 (bits - 1))).map fun n => -(n : Int)
  | '+' :: rest => ((magnitude? rest).filter (· < Nat.pow 2 bits)).map fun n => (n : Int)
  | _ => ((magnitude? t).filter (· < Nat.pow 2 bits)).map fun n => (n : Int)

/-- The digits of a number in front of and behind the point, and its exponent. -/
def readFinite? (t : Text) : Option Floating :=
  let (negative, t) := match t with
    | '-' :: rest => (true, rest)
    | '+' :: rest => (false, rest)
    | _ => (false, t)
  let whole := t.takeWhile Char.isDigit
  let t := t.dropWhile Char.isDigit
  let (fraction, t) := match t with
    | '.' :: rest => (rest.takeWhile Char.isDigit, rest.dropWhile Char.isDigit)
    | _ => ([], t)
  let exponent? : Option Int := match t with
    | [] => some 0
    | c :: rest =>
      if c = 'e' ∨ c = 'E' then
        match rest with
        | '-' :: digits => (readNat? digits).map fun n => -(n : Int)
        | '+' :: digits => (readNat? digits).map fun n => (n : Int)
        | _ => (readNat? rest).map fun n => (n : Int)
      else none
  if whole = [] ∧ fraction = [] then none
  else
    exponent?.bind fun e =>
      match Floating.ofDecimal double negative ((readNat? (whole ++ fraction)).getD 0)
          (e - fraction.length) with
      | .infinite _ => none
      | x => some x

/-- The floating-point number that a scalar writes. -/
def float? (t : Text) : Option Floating :=
  let unsigned := match t with
    | '+' :: rest => rest
    | _ => t
  if [".inf", ".Inf", ".INF"].any fun s => s.toList = unsigned then some (.infinite false)
  else if ["-.inf", "-.Inf", "-.INF"].any fun s => s.toList = t then some (.infinite true)
  else if [".nan", ".NaN", ".NAN"].any fun s => s.toList = t then some .nan
  else
    match t, unsigned with
    | '+' :: _, '+' :: _ => none
    | '+' :: _, '-' :: _ => none
    | _, _ => readFinite? unsigned

/-- What a plain scalar means; none for an integer that is refused. -/
def resolvePlain? (t : Text) : Option Data :=
  if t = [] ∨ isNull t then some .null
  else
    match bool? t with
    | some b => some (.bool b)
    | none =>
      match intWithin? 64 t with
      | some n => some (.int n)
      | none =>
        if (intWithin? 128 t).isSome then none
        else
          match if isPaddedDigits t then none else float? t with
          | some x => some (.float double x)
          | none => some (.text t)

/-- Whether a text, written without quotes, is taken for that text by every reader; digits behind a
leading zero are not. -/
def readsAsText (t : Text) : Bool :=
  match resolvePlain? t with
  | some (.text _) => !isPaddedDigits t
  | _ => false

/-- A tag of the core schema. -/
def coreTag (name : String) : List UInt8 :=
  Text.encode ("tag:yaml.org,2002:".toList ++ name.toList)

/-- The name of a tag of the document's own: what stands behind its mark, or the mark itself if it
stands alone. -/
def localName? (tag : List UInt8) : Option Text :=
  (Text.decode? tag).bind fun t =>
    match t with
    | ['!'] => some ['!']
    | '!' :: name => some name
    | _ => none

/-- Puts a tag of the document's own around a value. -/
def withTag (tag : Option (List UInt8)) (d : Data) : Data :=
  match tag.bind localName? with
  | some name => .tagged name d
  | none => d

/-- What a scalar with a tag means. The tags of the core schema ask for a value of their kind, other
full tags make it text, and a tag of the document's own stands around the value. -/
def resolveScalar? (tag : Option (List UInt8)) (value : Text) (plain : Bool) : Option Data :=
  let untagged := if plain then resolvePlain? value else some (.text value)
  match tag with
  | none => untagged
  | some t =>
    if t = coreTag "bool" then (bool? value).map .bool
    else if t = coreTag "int" then (intWithin? 64 value).map .int
    else if t = coreTag "float" then (float? value).map (.float double)
    else if t = coreTag "null" then if isNull value then some .null else none
    else if t.take 1 = Text.encode ['!'] then untagged.map (withTag tag)
    else some (.text value)

end NotePress.Yaml
