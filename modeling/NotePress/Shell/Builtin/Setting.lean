import NotePress.Shell.Builtin.Argument

/-!
# Options, arguments and variables

What a script sets: its options and arguments, marks of variables, and the variables that a function
keeps to itself.
-/

namespace NotePress.Shell.Builtin

/-! ### Options -/

/-- The options by name. The last two have no letter, so that characters stand for them that no
argument can hold as one. -/
def optionNames : List (String × Char) :=
  [("errexit", 'e'), ("noglob", 'f'), ("ignoreeof", 'I'), ("interactive", 'i'), ("monitor", 'm'),
    ("noexec", 'n'), ("stdin", 's'), ("xtrace", 'x'), ("verbose", 'v'), ("vi", 'V'), ("emacs", 'E'),
    ("noclobber", 'C'), ("allexport", 'a'), ("notify", 'b'), ("nounset", 'u'), ("privileged", 'p'),
    ("nolog", '\u0100'), ("debug", '\u0101')]

/-- Sets an option or takes it back. -/
def turn (on : Bool) (c : Char) : Action Unit :=
  modify fun s =>
    let others := s.options.filter (· ≠ c)
    { s with options := if on then c :: others else others }

/-- Takes the option back by which jobs would be controlled, since there is no terminal. -/
def refuseMonitor : Action Unit := do
  if (← get).has 'm' then
    turn false 'm'
    Action.complain "can't access tty; job control turned off".toList

/-- Sets the option of a letter or takes it back. Of the two kinds of editing there is only one. -/
def setOption (on : Bool) (c : Char) : Action Unit := do
  if optionNames.any fun o => o.2 = c then
    turn on c
    if on ∧ c = 'V' then turn false 'E'
    if on ∧ c = 'E' then turn false 'V'
  else Action.fail ("Illegal option -".toList ++ [c])

/-- All options, on or off, to be read or to be run. -/
def optionListing (toRead : Bool) (s : Session) : Text :=
  let line := fun (o : String × Char) =>
    let on := s.has o.2
    let name := o.1.toList
    if toRead then
      name ++ List.replicate (16 - name.length) ' ' ++ (if on then "on\n" else "off\n").toList
    else (if on then "set -o " else "set +o ").toList ++ name ++ ['\n']
  let heading := if toRead then "Current option settings\n".toList else []
  heading ++ optionNames.flatMap line

/-- Sets an option by its name. -/
def setNamed (on : Bool) (t : Text) : Action Unit := do
  match optionNames.find? fun o => o.1.toList = t with
  | some (_, c) => turn on c
  | none => Action.fail ("Illegal option -o ".toList ++ t)

/-- Sets the options that letters name; `o` takes the next argument for a name. -/
def setLetters (on : Bool) : Text → List Text → Action (List Text)
  | [], rest => return rest
  | 'o' :: letters, rest => do
    match rest with
    | [] =>
      let _ ← Action.say (optionListing on (← get))
      setLetters on letters []
    | t :: rest =>
      setNamed on t
      setLetters on letters rest
  | c :: letters, rest => do
    setOption on c
    setLetters on letters rest

/-- Sets options, and gives the arguments that stand behind them if there are any. -/
def setOptions : Nat → List Text → Action (Option (List Text))
  | 0, _ => return none
  | fuel + 1, args => do
    match args with
    | [] => return none
    | ['-', '-'] :: rest => return some rest
    | ['-'] :: rest =>
      setOption false 'x'
      setOption false 'v'
      return if rest = [] then none else some rest
    | (sign :: letters) :: rest =>
      if sign = '-' ∨ sign = '+' then
        let rest ← setLetters (sign = '-') letters rest
        setOptions fuel rest
      else return some args
    | args => return some args

/-- Gives the script other arguments. -/
def setArguments (args : List Text) : Action Unit :=
  modify fun s => { s with arguments := args, optionIndex := 1, optionPlace := 0 }

/-- Sets options and arguments; alone, it lists the variables. -/
def configure (args : List Text) : Action Nat := do
  if args = [] then Action.say (listing [] (fun v => v.value.isSome) (← get))
  else
    let args? ← setOptions (args.length + 1) args
    refuseMonitor
    match args? with
    | some args => setArguments args
    | none => pure ()
    return 0

/-- Drops the first arguments. -/
def shift (args : List Text) : Action Nat := do
  let n ← match args with
    | [] => pure 1
    | t :: _ => Action.number t
  let s ← get
  if s.arguments.length < n then Action.fail "can't shift that many".toList
  else
    setArguments (s.arguments.drop n)
    return 0

/-! ### Variables -/

/-- Marks variables, and sets those for which a value is given. -/
def markAll (mark : Variable → Variable) : List Text → Action Unit
  | [] => return ()
  | t :: rest => do
    let (name, value) := splitAssignment t
    match value, (← get).variableOf? name with
    | none, some v => modify fun s => s.put name (mark v)
    | value, v =>
      match value with
      | some value => assignTo name value
      | none =>
        if isName name then pure () else Action.fail (name ++ ": bad variable name".toList)
      let v := ((← get).variableOf? name).getD (v.getD { value := none })
      modify fun s => s.put name (mark v)
    markAll mark rest

/-- Marks variables, or lists those that are marked. -/
def marking (command : String) (mark : Variable → Variable) (isMarked : Variable → Bool)
    (args : List Text) : Action Nat := do
  let (found, names) ← options "p" "" args
  if names = [] ∨ found ≠ [] then
    Action.say (listing (command.toList ++ [' ']) isMarked (← get))
  else
    markAll mark names
    return 0

/-- Lets programs see variables. -/
def exportVariables (args : List Text) : Action Nat :=
  marking "export" (fun v => { v with exported := true }) (·.exported) args

/-- Fixes variables. -/
def fixVariables (args : List Text) : Action Nat :=
  marking "readonly" (fun v => { v with fixed := true }) (·.fixed) args

/-- Takes a variable away; an error if it is fixed. -/
def unsetVariable (t : Text) : Action Unit := do
  let name := t.takeWhile (· ≠ '=')
  if !isName name then Action.fail (name ++ ": bad variable name".toList)
  else Action.unset name

/-- Takes variables or functions away. -/
def unsetNames (args : List Text) : Action Nat := do
  let (found, names) ← options "vf" "" args
  let functions := (found.getLast?.map (·.1)) = some 'f'
  for name in names do
    if functions then
      modify fun s => { s with functions := s.functions.filter (·.1 ≠ name) }
    else unsetVariable name
  return 0

/-- Keeps a variable as it is now, to put it back when the running function ends. -/
def keep (name : Text) : Action Unit :=
  modify fun s =>
    match s.frames with
    | frame :: rest => { s with frames := ((name, s.variableOf? name) :: frame) :: rest }
    | [] => s

/-- Makes a variable local to the running function, or the options if a dash is given. A variable
that is new may have any name if it is given a value. -/
def makeOneLocal (t : Text) : Action Unit := do
  let (name, value) := splitAssignment t
  let s ← get
  if t = ['-'] then
    match s.frames with
    | frame :: rest =>
      let kept : Variable := { value := some s.options }
      set { s with frames := ((t, some kept) :: frame) :: rest }
    | [] => return ()
  else
    match value, s.variableOf? name with
    | some value, known =>
      keep name
      if known.isSome then Action.assign name value
      else modify fun s => s.set name value
    | none, some _ => keep name
    | none, none =>
      if !isName name then Action.fail (name ++ ": bad variable name".toList)
      keep name
      modify fun s => s.put name { value := none }

/-- Makes variables local to the running function. -/
def makeLocal (names : List Text) : Action Nat := do
  if (← get).frames = [] then Action.fail "not in a function".toList
  else
    for t in names do
      makeOneLocal t
    return 0

/-! ### Options of a script -/

/-- What the options that a script takes say of a letter: nothing if there is none, else whether it
has a value. -/
def isValued? : (letters : Text) → (c : Char) → Option Bool
  | [], _ => none
  | [l], c => if l = c then some false else none
  | l :: ':' :: rest, c => if l = c then some true else isValued? rest c
  | l :: next :: rest, c => if l = c then some false else isValued? (next :: rest) c

/-- Where the options of a script were read to: the argument, and the place in it. -/
structure OptionPlace where
  index : Nat
  place : Nat

/-- Ends a step of `getopts`: sets the targets, and gives the exit code. -/
def endStep (target letter : Text) (place : OptionPlace) (code : Nat) : Action Nat := do
  Action.assign "OPTIND".toList (Text.ofNat place.index)
  assignTo target letter
  modify fun s => { s with optionIndex := place.index, optionPlace := place.place }
  return code

/-- Reads an option behind its dash: its letter, and what follows in the argument. -/
def stepOption (letters target : Text) (args : List Text) (c : Char) (after : Text)
    (place : OptionPlace) : Action Nat := do
  let silent := letters.head? = some ':'
  let here : OptionPlace := if after = [] then ⟨place.index, 0⟩ else place
  let complain := fun (t : Text) (letter : Text) (place : OptionPlace) => do
    if silent then
      Action.assign "OPTARG".toList [c]
      endStep target letter place 0
    else
      Action.note (t ++ ['\n'])
      Action.unset "OPTARG".toList
      endStep target ['?'] place 0
  match isValued? letters c with
  | none => complain ("Illegal option -".toList ++ [c]) ['?'] here
  | some false =>
    Action.assign "OPTARG".toList []
    endStep target [c] here 0
  | some true =>
    if after ≠ [] then
      Action.assign "OPTARG".toList after
      endStep target [c] ⟨place.index, 0⟩ 0
    else
      match args[place.index - 1]? with
      | some value =>
        Action.assign "OPTARG".toList value
        endStep target [c] ⟨place.index + 1, 0⟩ 0
      | none => complain ("No arg for -".toList ++ c :: " option".toList) [':'] here

/-- Reads the next option of a script into a target. -/
def getopts (args : List Text) : Action Nat := do
  match args with
  | letters :: target :: given =>
    let s ← get
    let args := if given = [] then s.arguments else given
    let isLost := s.optionIndex = 0 ∨ args.length + 1 < s.optionIndex
    let (index, place) := if isLost then (1, 0) else (s.optionIndex, s.optionPlace)
    set { s with optionIndex := 0 }
    let current := if place = 0 then [] else ((args[index - 2]?).getD []).drop place
    match current with
    | c :: after => stepOption letters target args c after ⟨index, place + 1⟩
    | [] =>
      match args[index - 1]? with
      | some ('-' :: c :: after) =>
        if c = '-' ∧ after = [] then endStep target ['?'] ⟨index + 1, 0⟩ 1
        else stepOption letters target args c after ⟨index + 1, 2⟩
      | _ => endStep target ['?'] ⟨index, 0⟩ 1
  | _ => Action.fail "Usage: getopts optstring var [arg...]".toList

end NotePress.Shell.Builtin
