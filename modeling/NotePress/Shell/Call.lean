import NotePress.Shell.Builtin

/-!
# Calling commands

What the words of a simple command call, once `command` is taken off the front of them, and how its
assignments are made: for itself, or for the call only.
-/

namespace NotePress.Shell

/-! ### What a command names -/

/-- How a command is called. -/
structure Call where
  /-- Its words, without `command` in front of them. -/
  words : List Text
  /-- Whether `command` stood in front of them. -/
  wrapped : Bool := false
  /-- Whether its program is looked for in the usual directories. -/
  usual : Bool := false

/-- What stands behind `command` and its options; nothing if it has others or nothing follows. -/
def behindCommand? (usual : Bool) : List Text → Option Call
  | [] => none
  | ['-', '-'] :: rest => if rest = [] then none else some ⟨rest, true, usual⟩
  | ('-' :: c :: letters) :: rest =>
    if (c :: letters).all (· = 'p') then behindCommand? true rest else none
  | words => some ⟨words, true, usual⟩

/-- Takes `command` off the front of words. -/
def unwrap (s : Session) : Nat → Call → Call
  | 0, call => call
  | fuel + 1, call =>
    match call.words with
    | name :: rest =>
      if name = "command".toList ∧ (s.functions.lookup name).isNone then
        match behindCommand? call.usual rest with
        | some inner => unwrap s fuel inner
        | none => call
      else call
    | [] => call

/-- What runs at a simple command. -/
inductive Target where
  /-- No command, only assignments and redirections. -/
  | nothing
  | function (body : Command)
  | builtin (special : Bool)
  | program

/-- What the first word of a command names; functions do not count behind `command`. -/
def targetOf (s : Session) (wrapped : Bool) : List Text → Target
  | [] => .nothing
  | name :: _ =>
    match if wrapped then none else s.functions.lookup name with
    | some body => .function body
    | none =>
      if Builtin.isBuiltin name then .builtin (Builtin.isSpecialName name && !wrapped) else .program

/-- The commands whose arguments may be assignments. -/
def declaringNames : List String := ["alias", "export", "local", "readonly"]

/-- Whether the arguments of the words so far may be assignments. -/
def declares (s : Session) (words : List Text) : Bool :=
  let call := unwrap s (words.length + 1) ⟨words, false, false⟩
  match call.words with
  | [] => false
  | name :: _ =>
    (call.wrapped || (s.functions.lookup name).isNone) &&
      declaringNames.any fun n => n.toList = name

/-- Expands the words of a command behind those so far. -/
def expandWords (output : Command → Action Text) : List Word → List Text → Action (List Text)
  | [], words => return words
  | w :: rest, words => do
    match if declares (← get) words then assignment? w else none with
    | some (name, value) =>
      let value ← expandWhole output .severally value
      expandWords output rest (words ++ [name ++ '=' :: value])
    | none =>
      let fields ← expandFields output w
      expandWords output rest (words ++ fields)

/-- Makes assignments one after the other, and gives them as they were made. -/
def assignEach (output : Command → Action Text) (isLocal exported : Bool) :
    List (Text × Word) → Action (List Text)
  | [] => return []
  | (name, w) :: rest => do
    let value ← expandWhole output .severally w
    if isLocal then Builtin.keep name
    Action.assign name value
    if exported then
      modify fun s =>
        match s.variableOf? name with
        | some v => s.put name { v with exported := true }
        | none => s
    return (name ++ '=' :: value) :: (← assignEach output isLocal exported rest)

/-- Puts the variables back that the running function kept, up to one whose name cannot be that of a
variable. -/
def restoreAll : List (Text × Option Variable) → Action Unit
  | [] => return ()
  | (name, v) :: rest => do
    if name ≠ ['-'] ∧ !isName name then Action.fail (name ++ ": bad variable name".toList)
    modify fun s => s.restore name v
    restoreAll rest

/-- Runs a step with variables of its own, and puts those that it kept back, unless the script ends
there. -/
def withFrame (a : Action Unit) : Action Unit := do
  modify fun s => { s with frames := [] :: s.frames }
  let stop ← a.caught
  let restore : Action Unit := do
    let frames := (← get).frames
    modify fun s => { s with frames := frames.tail }
    restoreAll (frames.headD [])
  match stop with
  | none => restore
  | some (.break_ n) =>
    restore
    throw (.break_ n)
  | some (.continue_ n) =>
    restore
    throw (.continue_ n)
  | some .return_ =>
    restore
    throw .return_
  | some e => throw e

end NotePress.Shell
