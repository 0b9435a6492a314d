import NotePress.Shell.Action

/-!
# Arguments of commands

Options in front of arguments, what is done for each argument, and texts that can be read again.
-/

namespace NotePress.Shell.Builtin

/-! ### Arguments -/

/-- Takes the options that the letters of an argument name. -/
def takeLetters (plain valued : Text) : Text → List Text → Action (List (Char × Text) × List Text)
  | [], rest => return ([], rest)
  | c :: letters, rest => do
    if plain.contains c then
      let (more, rest) ← takeLetters plain valued letters rest
      return ((c, []) :: more, rest)
    else if valued.contains c then
      match letters, rest with
      | [], [] => Action.fail ("No arg for -".toList ++ c :: " option".toList)
      | [], value :: rest => return ([(c, value)], rest)
      | value, rest => return ([(c, value)], rest)
    else Action.fail ("Illegal option -".toList ++ [c])

/-- Takes the options in front of arguments: letters, some of which have a value. -/
def takeOptions (plain valued : Text) : Nat → List Text → Action (List (Char × Text) × List Text)
  | 0, args => return ([], args)
  | fuel + 1, args => do
    match args with
    | ['-', '-'] :: rest => return ([], rest)
    | ('-' :: c :: letters) :: rest =>
      let (found, rest) ← takeLetters plain valued (c :: letters) rest
      let (more, rest) ← takeOptions plain valued fuel rest
      return (found ++ more, rest)
    | args => return ([], args)

/-- The options in front of arguments, and what stands behind them. -/
def options (plain valued : String) (args : List Text) :
    Action (List (Char × Text) × List Text) :=
  takeOptions plain.toList valued.toList (args.length + 1) args

/-- The arguments behind options, of which there are none. -/
def operands (args : List Text) : Action (List Text) := return (← options "" "" args).2

/-- Runs a step for every argument; the exit code is the greatest one. -/
def forEach (f : Text → Action Nat) : List Text → Action Nat
  | [] => return 0
  | t :: rest => do
    let code ← f t
    return max code (← forEach f rest)

/-- Takes an argument apart into a name and the value behind `=`, if there is one. -/
def splitAssignment (t : Text) : Text × Option Text :=
  match Text.cutAt? '=' t with
  | some (name, value) => (name, some value)
  | none => (t, none)

/-- Sets a variable by what may be no name. What stands behind `=` does not count. -/
def assignTo (t value : Text) : Action Unit := do
  let name := t.takeWhile (· ≠ '=')
  if isName name then Action.assign name value
  else Action.fail (name ++ ": bad variable name".toList)

/-! ### Quoting -/

/-- A text in single quotes, from which the quotes in it are left out and put in double ones. -/
def quoteRuns : Nat → Text → Text
  | 0, _ => []
  | fuel + 1, t =>
    let plain := t.takeWhile (· ≠ '\'')
    let rest := t.drop plain.length
    let quotes := rest.takeWhile (· = '\'')
    let rest := rest.drop quotes.length
    let quoted := if quotes = [] then [] else inQuotes quotes
    ['\''] ++ plain ++ ['\''] ++ quoted ++ if rest = [] then [] else quoteRuns fuel rest

/-- A text as a script can write it. -/
def quoted (t : Text) : Text := quoteRuns (t.length + 1) t

/-- The variables, one in a line, in order of their names. -/
def listing (mark : Text) (chosen : Variable → Bool) (s : Session) : Text :=
  let shown := (s.bindings.filter fun v => chosen v.2).mergeSort fun a b => !Text.lt b.1 a.1
  let line := fun (v : Text × Variable) =>
    let value := (v.2.value.map fun t => '=' :: quoted t).getD []
    mark ++ v.1 ++ value ++ ['\n']
  shown.flatMap line

end NotePress.Shell.Builtin
