import NotePress.Shell.Expansion

/-!
# Conditions

What `test` finds: whether texts are empty or equal, how numbers compare, and what stands at a path.
Conditions are negated, joined and put in brackets; the number of operands decides first what a word
that could be an operator is.
-/

namespace NotePress.Shell.Condition

/-- The kind of a word in a condition. -/
inductive Kind where
  | nothing
  | operand
  | unary
  | binary
  | not
  | both
  | either
  | opening
  | closing
  deriving DecidableEq, Repr

/-- The operators of one operand. -/
def unaryOperators : List String :=
  ["-r", "-w", "-x", "-e", "-f", "-d", "-c", "-b", "-p", "-u", "-g", "-k", "-s", "-t", "-z", "-n",
    "-h", "-O", "-G", "-L", "-S"]

/-- The operators of two operands. -/
def binaryOperators : List String :=
  ["=", "!=", "<", ">", "-eq", "-ne", "-ge", "-gt", "-le", "-lt", "-nt", "-ot", "-ef"]

/-- The kind that a word may have as an operator. -/
def operatorKind? (t : Text) : Option Kind :=
  let word := String.ofList t
  if unaryOperators.contains word then some .unary
  else if binaryOperators.contains word then some .binary
  else
    match word with
    | "!" => some .not
    | "-a" => some .both
    | "-o" => some .either
    | "(" => some .opening
    | ")" => some .closing
    | _ => none

/-- The kind of the first of some words, seen with those behind it. -/
def kindOf (ws : List Text) : Kind :=
  match ws with
  | [] => .nothing
  | w :: rest =>
    match operatorKind? w with
    | none => .operand
    | some .unary =>
      match rest with
      | [] => .operand
      | [_] => .unary
      | next :: _ => if operatorKind? next = some .binary then .operand else .unary
    | some .opening => if rest.isEmpty then .operand else .opening
    | some k => k

/-- Refuses a condition. -/
def refuse {α : Type} (op : Text) (what : String) : Action α :=
  Action.fail (if op = [] then what.toList else op ++ ": ".toList ++ what.toList)

/-- The number that a word writes. -/
def number (t : Text) : Action Int := do
  let isBlank := fun (c : Char) => c = ' ' || ('\t' ≤ c && c ≤ '\r')
  let digits := (Text.trim t).dropWhile fun c => c = '-' || c = '+'
  let signs := (t.dropWhile isBlank).takeWhile fun c => c = '-' || c = '+'
  match readNat? digits with
  | some n =>
    let n : Int := if signs = ['-'] then -(n : Int) else n
    if 1 < signs.length ∨ !digits.all Char.isDigit ∨ (Arithmetic.clamp n).toInt ≠ n then
      Action.fail ("Illegal number: ".toList ++ t)
    else return n
  | none => Action.fail ("Illegal number: ".toList ++ t)

/-- What can stand at a path. -/
inductive Standing where
  | file (bytes : List UInt8)
  | directory
  | pipe
  | device
  deriving DecidableEq, Repr

/-- What is open behind an opening. -/
def standingOf (d : Disk) (c : Channel) : Option Standing :=
  match c with
  | .nothing => some .device
  | .full => some .device
  | .terminal => some .device
  | .pipe _ => some .pipe
  | .directory _ => some .directory
  | .file names =>
    match d.entry? names with
    | some (.file bytes) => some (.file bytes)
    | _ => none

/-- What stands at a path. -/
def standingAt (s : Session) (t : Text) : Option Standing :=
  let path := s.path t
  if (World.device? path).isSome then some .device
  else
    match World.streamAt? path with
    | some stream => (s.world.opening? s.streams stream).bind fun o => standingOf s.disk o.channel
    | none =>
      match s.disk.locate path with
      | .ok names =>
        match s.disk.entry? names with
        | some (.file bytes) => some (.file bytes)
        | _ => some .directory
      | .error _ => none

/-- The paths at which a link stands. -/
def linkNames : List String :=
  ["/dev/stdin", "/dev/stdout", "/dev/stderr", "/dev/fd", "/bin", "/sbin", "/lib", "/bin/sh",
    "/usr/bin/sh"]

/-- Whether a link stands at a path. -/
def isLink (s : Session) (t : Text) : Bool :=
  let path := s.path t
  (linkNames.any fun n => n.toList = path) ||
    (Text.startsWith path "/dev/fd/".toList && (standingAt s t).isSome)

/-- What a test of a path finds. -/
def testPath (isProgram : Disk → Text → Bool) (s : Session) (op t : Text) : Bool :=
  let standing := standingAt s t
  match String.ofList op, standing with
  | "-L", _ => isLink s t
  | "-h", _ => isLink s t
  | _, none => false
  | "-e", _ => true
  | "-r", _ => true
  | "-w", _ => true
  | "-O", _ => true
  | "-G", _ => true
  | "-f", some (.file _) => true
  | "-d", some .directory => true
  | "-p", some .pipe => true
  | "-c", some .device => true
  | "-s", some (.file bytes) => bytes ≠ []
  | "-s", some .directory => true
  | "-x", some .directory => true
  | "-x", some (.file _) => isProgram s.disk (s.path t)
  | "-k", some .directory => s.path t = "/tmp".toList
  | _, _ => false

/-- The directories of the root in which the system is. -/
def systemNames : List String := ["usr", "bin", "sbin", "lib"]

/-- Whether what stands at a path is newer than what stands at another one. The system is older than
all else. -/
def isNewer (s : Session) (a b : Text) : Bool :=
  let isOld := fun (t : Text) =>
    match s.disk.locate (s.path t) with
    | .ok (name :: _) => systemNames.any fun n => n.toList = name
    | _ => false
  (standingAt s a).isSome && (standingAt s b).isSome && isOld b && !isOld a

/-- What a test of one operand finds. -/
def testOne (isProgram : Disk → Text → Bool) (op t : Text) : Action Bool := do
  match String.ofList op with
  | "-n" => return t ≠ []
  | "-z" => return t = []
  | "-t" => do
    let _ ← number t
    return false
  | _ => return testPath isProgram (← get) op t

/-- What a test of two operands finds. -/
def testTwo (a op b : Text) : Action Bool := do
  let compared := fun (p : Int → Int → Bool) => do
    let n ← number a
    let m ← number b
    return p n m
  match String.ofList op with
  | "=" => return a = b
  | "!=" => return a ≠ b
  | "<" => return Text.lt a b
  | ">" => return Text.lt b a
  | "-eq" => compared fun n m => n = m
  | "-ne" => compared fun n m => n ≠ m
  | "-lt" => compared fun n m => n < m
  | "-le" => compared fun n m => n ≤ m
  | "-gt" => compared fun n m => m < n
  | "-ge" => compared fun n m => m ≤ n
  | "-nt" => return isNewer (← get) a b
  | "-ot" => return isNewer (← get) b a
  | "-ef" => do
    let s ← get
    return match s.disk.locate (s.path a), s.disk.locate (s.path b) with
      | .ok p, .ok q => p = q
      | _, _ => false
  | _ => return false

mutual
/-- Evaluates conditions joined by `-o`. The words begin with the first of the condition; those from
its last one on are given back. -/
def anyOf (isProgram : Disk → Text → Bool) : Nat → Kind → List Text → Action (Bool × List Text)
  | 0, _, ws => return (false, ws)
  | fuel + 1, k, ws => do
    let (a, ws) ← allOf isProgram fuel k ws
    if kindOf ws.tail = .either then
      let ws := ws.tail.tail
      let (b, ws) ← anyOf isProgram fuel (kindOf ws) ws
      return (a || b, ws)
    else return (a, ws)

/-- Evaluates conditions joined by `-a`. -/
def allOf (isProgram : Disk → Text → Bool) : Nat → Kind → List Text → Action (Bool × List Text)
  | 0, _, ws => return (false, ws)
  | fuel + 1, k, ws => do
    let (a, ws) ← negated isProgram fuel k ws
    if kindOf ws.tail = .both then
      let ws := ws.tail.tail
      let (b, ws) ← allOf isProgram fuel (kindOf ws) ws
      return (a && b, ws)
    else return (a, ws)

/-- Evaluates a condition that may be negated. -/
def negated (isProgram : Disk → Text → Bool) : Nat → Kind → List Text → Action (Bool × List Text)
  | 0, _, ws => return (false, ws)
  | fuel + 1, k, ws => do
    if k = .not then
      let k := kindOf ws.tail
      let (a, ws) ← negated isProgram fuel k (if k = .nothing then ws else ws.tail)
      return (!a, ws)
    else primary isProgram fuel k ws

/-- Evaluates a single condition. -/
def primary (isProgram : Disk → Text → Bool) : Nat → Kind → List Text → Action (Bool × List Text)
  | 0, _, ws => return (false, ws)
  | fuel + 1, k, ws => do
    let w := ws.headD []
    match k with
    | .nothing => return (false, ws)
    | .opening =>
      if kindOf ws.tail = .closing then return (false, ws.tail)
      else
        let (a, ws) ← anyOf isProgram fuel (kindOf ws.tail) ws.tail
        if kindOf ws.tail = .closing then return (a, ws.tail)
        else refuse [] "closing paren expected"
    | .unary =>
      match ws.tail with
      | [] => refuse w "argument expected"
      | t :: _ => return (← testOne isProgram w t, ws.tail)
    | _ =>
      if kindOf ws.tail = .binary then
        match ws.tail with
        | op :: b :: rest => return (← testTwo w op b, b :: rest)
        | op :: [] => refuse op "argument expected"
        | [] => return (false, ws)
      else return (w ≠ [], ws)
end

/-- Evaluates a whole condition. -/
def whole (isProgram : Disk → Text → Bool) (k : Kind) (ws : List Text) : Action Bool := do
  let (a, rest) ← anyOf isProgram (8 * ws.length + 8) k ws
  match rest with
  | w :: _ :: _ => refuse w "unexpected operator"
  | _ => return a

/-- Evaluates the operands of `test`. However many signs of negation stand in front of three or four
operands, they negate once. -/
def evaluate (isProgram : Disk → Text → Bool) : (negated : Bool) → List Text → Action Bool
  | negated, [] => return negated
  | negated, w :: rest => do
    let ws := w :: rest
    let count := ws.length
    let settle := fun (a : Action Bool) => return (← a) != negated
    if count = 3 ∧ (rest.head?.bind operatorKind?) = some .binary then
      settle (whole isProgram .operand ws)
    else if (count = 3 ∨ count = 4) ∧ w = ['('] ∧ ws.getLast? = some [')'] then
      let inner := rest.dropLast
      settle (whole isProgram (kindOf inner) inner)
    else if (count = 3 ∨ count = 4) ∧ w = ['!'] then evaluate isProgram true rest
    else settle (whole isProgram (kindOf ws) ws)

end NotePress.Shell.Condition
