import NotePress.Shell.Action

/-!
# Arithmetic

Expressions are over whole numbers of 64 bits. They have the operators of the shell with their
ranks, a choice, and assignments to variables; of `&&`, `||` and a choice only the parts that count
are evaluated.
-/

namespace NotePress.Shell

/-- An operator of two operands. -/
inductive BinaryOperator where
  | mul | div | rem | add | sub | shiftLeft | shiftRight
  | lt | le | gt | ge | eq | ne | bitAnd | bitXor | bitOr
  deriving DecidableEq, Repr

/-- An expression. -/
inductive Expression where
  | number (n : Int64)
  | variable (name : Text)
  | negative (e : Expression)
  | not (e : Expression)
  | complement (e : Expression)
  | binary (op : BinaryOperator) (a b : Expression)
  | both (a b : Expression)
  | either (a b : Expression)
  | choose (condition yes no : Expression)
  /-- Sets a variable, or changes it by an operator. -/
  | assign (name : Text) (op : Option BinaryOperator) (e : Expression)
  deriving Repr

/-- A token of an expression. -/
inductive ArithmeticToken where
  | number (n : Int64)
  | name (t : Text)
  | mark (t : Text)
  deriving DecidableEq, Repr

namespace Arithmetic

/-- The value of a digit up to sixteen. -/
def digitValue (c : Char) : Nat :=
  if c.isDigit then c.toNat - '0'.toNat
  else if 'a' ≤ c ∧ c ≤ 'f' then c.toNat - 'a'.toNat + 10
  else if 'A' ≤ c ∧ c ≤ 'F' then c.toNat - 'A'.toNat + 10
  else 16

/-- A whole number of 64 bits; what is too great becomes the greatest or the least. -/
def clamp (n : Int) : Int64 :=
  Int64.ofInt (min (max n (-0x8000000000000000)) 0x7fffffffffffffff)

/-- Reads a number without a sign: behind `0x` in base 16, behind `0b` in base 2, behind `0` in base
8, else in base 10. -/
def readNumber (t : Text) : Nat × Text :=
  let inBase := fun (base : Nat) (t : Text) =>
    let digits := t.takeWhile fun c => digitValue c < base
    (digits.foldl (fun n c => n * base + digitValue c) 0, t.drop digits.length)
  match t with
  | '0' :: x :: c :: rest =>
    if (x = 'x' ∨ x = 'X') ∧ digitValue c < 16 then inBase 16 (c :: rest)
    else if (x = 'b' ∨ x = 'B') ∧ digitValue c < 2 then inBase 2 (c :: rest)
    else inBase 8 t
  | '0' :: _ => inBase 8 t
  | _ => inBase 10 t

/-- Reads a number with blanks and a sign in front of it; none if there is no digit. -/
def readSigned? (t : Text) : Option (Int × Text) :=
  let t := t.dropWhile fun c => c = ' ' || ('\t' ≤ c && c ≤ '\r')
  let (negative, digits) := match t with
    | '-' :: rest => (true, rest)
    | '+' :: rest => (false, rest)
    | t => (false, t)
  if digits.head?.any Char.isDigit then
    let (n, rest) := readNumber digits
    some (if negative then -(n : Int) else n, rest)
  else none

/-- The marks of an expression, longer ones first. -/
def marks : List String :=
  ["<<=", ">>=", "<=", ">=", "==", "!=", "&&", "||", "<<", ">>", "+=", "-=", "*=", "/=", "%=", "&=",
    "|=", "^=", "+", "-", "*", "/", "%", "<", ">", "=", "!", "~", "&", "|", "^", "(", ")", "?", ":"]

/-- The tokens of an expression; a character that begins none is a token of its own. -/
def tokens : Nat → Text → List ArithmeticToken
  | 0, _ => []
  | _ + 1, [] => []
  | fuel + 1, c :: cs =>
    if isGap c ∨ c = '\n' then tokens fuel cs
    else if c.isDigit then
      let (n, rest) := readNumber (c :: cs)
      .number (clamp n) :: tokens fuel rest
    else if opensName c then
      .name ((c :: cs).takeWhile isNameChar) :: tokens fuel ((c :: cs).dropWhile isNameChar)
    else
      match marks.find? fun m => Text.startsWith (c :: cs) m.toList with
      | some m => .mark m.toList :: tokens fuel ((c :: cs).drop m.length)
      | none => .mark [c] :: tokens fuel cs

/-- Why an expression has no value. -/
inductive Fault where
  | primary
  | bracket
  | colon
  | ending
  | divisionByZero
  deriving DecidableEq, Repr

/-- What the shell says about an expression. -/
def Fault.message (f : Fault) (t : Text) : Text :=
  let what := match f with
    | .primary => "expecting primary"
    | .bracket => "expecting ')'"
    | .colon => "expecting ':'"
    | .ending => "expecting EOF"
    | .divisionByZero => "division by zero"
  "arithmetic expression: ".toList ++ what.toList ++ ": \"".toList ++ t ++ ['"']

/-- The operator of a mark, and its rank; a higher one binds tighter. -/
def operator? (t : Text) : Option (BinaryOperator × Nat) :=
  match String.ofList t with
  | "*" => some (.mul, 8)
  | "/" => some (.div, 8)
  | "%" => some (.rem, 8)
  | "+" => some (.add, 7)
  | "-" => some (.sub, 7)
  | "<<" => some (.shiftLeft, 6)
  | ">>" => some (.shiftRight, 6)
  | "<" => some (.lt, 5)
  | "<=" => some (.le, 5)
  | ">" => some (.gt, 5)
  | ">=" => some (.ge, 5)
  | "==" => some (.eq, 4)
  | "!=" => some (.ne, 4)
  | "&" => some (.bitAnd, 3)
  | "^" => some (.bitXor, 2)
  | "|" => some (.bitOr, 1)
  | _ => none

/-- The operator of an assignment; none inside if it has none. -/
def assignment? (t : Text) : Option (Option BinaryOperator) :=
  if t = ['='] then some none
  else
    let isComparison := ["==", "!=", "<=", ">="].any fun m => m.toList = t
    if t.getLast? = some '=' ∧ !isComparison then (operator? t.dropLast).map fun o => some o.1
    else none

/-- What reading a part of an expression gives. -/
abbrev Reading := Except Fault (Expression × List ArithmeticToken)

mutual
/-- Reads an expression. -/
def readAssignment : Nat → List ArithmeticToken → Reading
  | 0, _ => .error .primary
  | fuel + 1, ts =>
    match ts with
    | .name x :: .mark m :: rest =>
      match assignment? m with
      | some op => (readAssignment fuel rest).map fun (e, rest) => (.assign x op e, rest)
      | none => readChoice fuel ts
    | _ => readChoice fuel ts

/-- Reads a choice, or what may stand in front of one. -/
def readChoice : Nat → List ArithmeticToken → Reading
  | 0, _ => .error .primary
  | fuel + 1, ts => do
    let (c, rest) ← readEither fuel ts
    match rest with
    | .mark ['?'] :: rest =>
      let (yes, rest) ← readAssignment fuel rest
      match rest with
      | .mark [':'] :: rest =>
        let (no, rest) ← readChoice fuel rest
        return (.choose c yes no, rest)
      | _ => throw .colon
    | rest => return (c, rest)

/-- Reads operands joined by `||`. -/
def readEither : Nat → List ArithmeticToken → Reading
  | 0, _ => .error .primary
  | fuel + 1, ts => do
    let (a, rest) ← readBoth fuel ts
    match rest with
    | .mark ['|', '|'] :: rest =>
      let (b, rest) ← readEither fuel rest
      return (.either a b, rest)
    | rest => return (a, rest)

/-- Reads operands joined by `&&`. -/
def readBoth : Nat → List ArithmeticToken → Reading
  | 0, _ => .error .primary
  | fuel + 1, ts => do
    let (first, rest) ← readPrimary fuel ts
    let (a, rest) ← readOperators fuel 0 first rest
    match rest with
    | .mark ['&', '&'] :: rest =>
      let (b, rest) ← readBoth fuel rest
      return (.both a b, rest)
    | rest => return (a, rest)

/-- Reads operators of a rank and above behind a first operand. -/
def readOperators : Nat → (rank : Nat) → Expression → List ArithmeticToken → Reading
  | 0, _, _, _ => .error .primary
  | fuel + 1, rank, a, ts =>
    match ts with
    | .mark m :: rest =>
      match operator? m with
      | some (op, r) =>
        if r < rank then .ok (a, ts)
        else do
          let (first, rest) ← readPrimary fuel rest
          let (b, rest) ← readOperators fuel (r + 1) first rest
          readOperators fuel rank (.binary op a b) rest
      | none => .ok (a, ts)
    | _ => .ok (a, ts)

/-- Reads an operand. -/
def readPrimary : Nat → List ArithmeticToken → Reading
  | 0, _ => .error .primary
  | fuel + 1, ts =>
    match ts with
    | .number n :: rest => .ok (.number n, rest)
    | .name x :: rest => .ok (.variable x, rest)
    | .mark ['+'] :: rest => readPrimary fuel rest
    | .mark ['-'] :: rest => (readPrimary fuel rest).map fun (e, rest) => (.negative e, rest)
    | .mark ['!'] :: rest => (readPrimary fuel rest).map fun (e, rest) => (.not e, rest)
    | .mark ['~'] :: rest => (readPrimary fuel rest).map fun (e, rest) => (.complement e, rest)
    | .mark ['('] :: rest => do
      let (e, rest) ← readAssignment fuel rest
      match rest with
      | .mark [')'] :: rest => return (e, rest)
      | _ => throw .bracket
    | _ => .error .primary
end

/-- Reads a whole expression. -/
def read (t : Text) : Except Fault Expression := do
  let ts := tokens (t.length + 1) t
  let (e, rest) ← readAssignment (8 * ts.length + 16) ts
  if rest = [] then return e else throw .ending

/-- The number of a truth value. -/
def truth (b : Bool) : Int64 := if b then 1 else 0

/-- Applies an operator; none for a division by zero. -/
def compute? (op : BinaryOperator) (a b : Int64) : Option Int64 :=
  match op with
  | .mul => some (a * b)
  | .div => if b = 0 then none else some (a / b)
  | .rem => if b = 0 then none else some (a % b)
  | .add => some (a + b)
  | .sub => some (a - b)
  | .shiftLeft => some (a <<< b)
  | .shiftRight => some (a >>> b)
  | .lt => some (truth (a < b))
  | .le => some (truth (a ≤ b))
  | .gt => some (truth (b < a))
  | .ge => some (truth (b ≤ a))
  | .eq => some (truth (a = b))
  | .ne => some (truth (a ≠ b))
  | .bitAnd => some (a &&& b)
  | .bitXor => some (a ^^^ b)
  | .bitOr => some (a ||| b)

/-- The number that the value of a variable writes; an empty one is zero. -/
def valueOf (t : Text) : Action Int64 := do
  let isBlank := fun (c : Char) => c = ' ' || ('\t' ≤ c && c ≤ '\r')
  match readSigned? t with
  | some (n, rest) =>
    if rest.all isBlank ∧ (clamp n).toInt = n then return clamp n
    else Action.fail ("Illegal number: ".toList ++ t)
  | none =>
    if t.all isBlank then return 0 else Action.fail ("Illegal number: ".toList ++ t)

/-- Applies an operator in an expression. -/
def applied (whole : Text) (op : BinaryOperator) (a b : Int64) : Action Int64 :=
  match compute? op a b with
  | some n => return n
  | none => Action.fail (Fault.divisionByZero.message whole)

/-- The value of a variable; one that is not set is zero. -/
def lookUp (name : Text) : Action Int64 := do
  match (← get).get? name with
  | some t => valueOf t
  | none => return 0

/-- Evaluates an expression. -/
def evaluate (whole : Text) : Expression → Action Int64
  | .number n => return n
  | .variable name => lookUp name
  | .negative e => return -(← evaluate whole e)
  | .not e => return truth ((← evaluate whole e) = 0)
  | .complement e => return ~~~(← evaluate whole e)
  | .binary op a b => do
    let a ← evaluate whole a
    let b ← evaluate whole b
    applied whole op a b
  | .both a b => do
    if (← evaluate whole a) = 0 then return 0 else return truth ((← evaluate whole b) ≠ 0)
  | .either a b => do
    if (← evaluate whole a) = 0 then return truth ((← evaluate whole b) ≠ 0) else return 1
  | .choose c yes no => do
    if (← evaluate whole c) = 0 then evaluate whole no else evaluate whole yes
  | .assign name op e => do
    let n ← evaluate whole e
    let n ← match op with
      | some op => applied whole op (← lookUp name) n
      | none => pure n
    Action.assign name (Text.ofInt n.toInt)
    return n

/-- The value of the text of an expression. -/
def value (t : Text) : Action Int64 :=
  match read t with
  | .ok e => evaluate t e
  | .error f => Action.fail (f.message t)

end Arithmetic

end NotePress.Shell
