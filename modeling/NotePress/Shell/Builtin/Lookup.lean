import NotePress.Shell.Builtin.Argument
import NotePress.Shell.Expansion

/-!
# Looking commands up

What a name stands for: an alias, a function, a command of the shell, or a program in the search
path, whose place is remembered.
-/

namespace NotePress.Shell.Builtin

/-! ### Commands and their names -/

/-- The commands of the shell that are not special. -/
def plainNames : List String :=
  ["[", "alias", "bg", "cd", "chdir", "command", "echo", "false", "fg", "getopts", "hash",
    "jobs", "kill", "printf", "pwd", "read", "test", "true", "type", "ulimit", "umask", "unalias",
    "wait"]

/-- Whether a command of the shell is special. -/
def isSpecialName (name : Text) : Bool := specialNames.any fun n => n.toList = name

/-- Whether the shell runs a command itself. -/
def isBuiltin (name : Text) : Bool :=
  isSpecialName name || plainNames.any fun n => n.toList = name

/-- The paths at which a name is looked for in directories. -/
def candidatesIn (directories name : Text) : List Text :=
  (directories.splitOn ':').map fun directory =>
    if directory = [] then name else directory ++ '/' :: name

/-- The paths at which the search path looks for a name. -/
def candidates (s : Session) (name : Text) : List Text :=
  candidatesIn ((s.get? "PATH".toList).getD []) name

/-- The path of a program, looked for in the directories of the search path. -/
def programPath? (isProgram : Disk → Text → Bool) (s : Session) (name : Text) : Option Text :=
  (candidates s name).find? fun path => isProgram s.disk (s.path path)

/-- The path of a program, which is remembered unless it is looked for in the usual directories. -/
def locate? (isProgram : Disk → Text → Bool) (usual : Bool) (name : Text) :
    Action (Option Text) := do
  let s ← get
  if usual then
    let paths := candidatesIn Session.usualPath name
    return paths.find? fun path => isProgram s.disk (s.path path)
  let known := (s.located.lookup name).filter fun l => !l.stale
  match (known.map (·.path)).or (programPath? isProgram s name) with
  | some path =>
    if known.isNone then
      if (s.located.lookup name).isSome then
        let renewed := s.located.map fun l => if l.1 = name then (name, ⟨path, false⟩) else l
        set { s with located := renewed }
      else set { s with located := (name, ⟨path, false⟩) :: s.located }
    return some path
  | none =>
    set { s with located := s.located.filter (·.1 ≠ name) }
    return none

/-- The order in which names are listed that are kept in so many rows. -/
def rowOf (rows : Nat) (name : Text) : Nat :=
  let first := (name.headD '\x00').toNat
  (name.foldl (fun n c => n + c.toNat) (first * 16)) % 0x8000 % rows

/-- Entries in the order of the rows that their names are kept in. -/
def inRows {α : Type} (rows : Nat) (entries : List (Text × α)) : List (Text × α) :=
  (List.range rows).flatMap fun n => entries.filter fun e => rowOf rows e.1 = n

/-- Says what a command is, at length or briefly. -/
def describe (isProgram : Disk → Text → Bool) (usual long : Bool) (name : Text) :
    Action Nat := do
  let s ← get
  let tell := fun (what : String) =>
    Action.say (if long then name ++ what.toList ++ ['\n'] else name ++ ['\n'])
  let tellPath := fun (path : Text) =>
    Action.say (if long then name ++ " is ".toList ++ path ++ ['\n'] else path ++ ['\n'])
  let missing := do
    if long then
      let _ ← Action.say (name ++ ": not found\n".toList)
    return 127
  if reservedWords.any fun w => w.toList = name then tell " is a shell keyword"
  else if let some value := s.aliases.lookup name then
    if long then Action.say (name ++ " is an alias for ".toList ++ value ++ ['\n'])
    else Action.say ("alias ".toList ++ name ++ '=' :: quoted value ++ ['\n'])
  else if (s.functions.lookup name).isSome then tell " is a shell function"
  else if isSpecialName name then tell " is a special shell builtin"
  else if isBuiltin name then tell " is a shell builtin"
  else if name.contains '/' then if isThere s name then tellPath name else missing
  else if let some l := if usual then none else s.located.lookup name then
    if long then Action.say (name ++ " is a tracked alias for ".toList ++ l.path ++ ['\n'])
    else tellPath l.path
  else
    match ← locate? isProgram usual name with
    | some path => tellPath path
    | none => missing

/-- Says what a command is, by the options of `command`. -/
def command (isProgram : Disk → Text → Bool) (args : List Text) : Action Nat := do
  let (found, rest) ← options "pvV" "" args
  match rest with
  | [] => return 0
  | name :: _ =>
    let usual := (found.lookup 'p').isSome
    if (found.lookup 'V').isSome then describe isProgram usual true name
    else if (found.lookup 'v').isSome then describe isProgram usual false name
    else return 0

/-- Whether anything of a name stands in the search path. -/
def isInPath (s : Session) (name : Text) : Bool := (candidates s name).any (isThere s)

/-- Why a name in the search path is no program: something else stands there, or nothing. -/
def searchFault (s : Session) (name : Text) : Text :=
  if isInPath s name then "Permission denied".toList else "not found".toList

/-- Looks commands up, so that they are remembered, or lists those that are. -/
def hash (isProgram : Disk → Text → Bool) (args : List Text) : Action Nat := do
  let (found, names) ← options "r" "" args
  let s ← get
  if found ≠ [] then
    set { s with located := [] }
    return 0
  else if names = [] then
    let line := fun (l : Text × Located) =>
      l.2.path ++ (if l.2.stale then ['*'] else []) ++ ['\n']
    Action.say ((inRows 31 s.located.reverse).flatMap line)
  else
    let look := fun (name : Text) => do
      modify fun s => { s with located := s.located.filter (·.1 ≠ name) }
      let s ← get
      if isBuiltin name ∨ (s.functions.lookup name).isSome ∨ name.contains '/' then return 0
      else if (← locate? isProgram false name).isSome then return 0
      else
        Action.complain (name ++ ": ".toList ++ searchFault s name)
        return 1
    forEach look names

/-! ### Aliases -/

/-- Says that a name is no alias. -/
def refuseAlias (command : String) (name : Text) : Action Nat := do
  let t := command.toList ++ ": ".toList ++ name ++ " not found\n".toList
  Action.note t
  return 1

/-- Sets an alias, or shows it. -/
def setAlias (t : Text) : Action Nat := do
  let s ← get
  let (name, value?) := match t with
    | [] => ([], none)
    | c :: rest =>
      match splitAssignment rest with
      | (name, value?) => (c :: name, value?)
  match value? with
  | some value =>
    let renewed := s.aliases.map fun a => if a.1 = name then (name, value) else a
    let isKnown := (s.aliases.lookup name).isSome
    set { s with aliases := if isKnown then renewed else s.aliases ++ [(name, value)] }
    return 0
  | none =>
    match s.aliases.lookup name with
    | some value => Action.say (name ++ '=' :: quoted value ++ ['\n'])
    | none => refuseAlias "alias" name

/-- Takes an alias away. -/
def unalias (name : Text) : Action Nat := do
  let s ← get
  if (s.aliases.lookup name).isSome then
    set { s with aliases := s.aliases.filter (·.1 ≠ name) }
    return 0
  else refuseAlias "unalias" name

/-- Sets aliases or shows them. -/
def aliases (args : List Text) : Action Nat := do
  let s ← get
  forEach setAlias (if args = [] then (inRows 39 s.aliases).map (·.1) else args)

/-- Takes aliases away. -/
def unaliases (args : List Text) : Action Nat := do
  let (found, names) ← options "a" "" args
  if found ≠ [] then
    modify fun s => { s with aliases := [] }
    return 0
  else forEach unalias names

end NotePress.Shell.Builtin
