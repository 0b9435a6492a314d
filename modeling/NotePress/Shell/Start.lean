import NotePress.Shell.Run

/-!
# Starting the shell

The shell is started with options and with a script: a text among the arguments, a file, or its
input, which it may ask for line by line.
-/

namespace NotePress.Shell

/-- The depth of commands, and the number of rounds of a loop, that a script may need. -/
def roundLimit : Nat := 1000000

/-- Runs a step as a whole script. -/
def runWhole (k : Kit) (a : Action Unit) (s : Session) : Ending × World :=
  let ((stop, s), _) := ((conclude k roundLimit a).run.run s).run []
  match stop with
  | .error (.killed n) => (.killed n, s.world)
  | .error .exhausted => (.killed Signal.kill, s.world)
  | _ => (.exited (s.status % 256), s.world)

/-- Runs the text of a script. -/
def runScript (k : Kit) (origin : Origin) (text : Text) : Action Unit := do
  let _ ← runText k roundLimit {} false { rest := text, origin }

/-- Sets the options that the shell is started with, and says whether a script is among the
arguments. -/
def startLetters (on : Bool) : (isScript : Bool) → Text → List Text → Action (Bool × List Text)
  | isScript, [], rest => return (isScript, rest)
  | _, 'c' :: letters, rest => startLetters on true letters rest
  | isScript, 'l' :: letters, rest => startLetters on isScript letters rest
  | isScript, 'o' :: letters, rest => do
    match rest with
    | [] =>
      -- no option is set to anything yet
      let all := Builtin.optionNames.map (·.2)
      let _ ← Action.say (Builtin.optionListing on { (← get) with options := all })
      startLetters on isScript letters []
    | t :: rest =>
      Builtin.setNamed on t
      startLetters on isScript letters rest
  | isScript, c :: letters, rest => do
    Builtin.setOption on c
    startLetters on isScript letters rest

/-- Sets all options that the shell is started with. -/
def startOptions : Nat → (isScript : Bool) → List Text → Action (Bool × List Text)
  | 0, isScript, args => return (isScript, args)
  | fuel + 1, isScript, args => do
    match args with
    | ['-', '-'] :: rest => return (isScript, rest)
    | ['-'] :: rest => return (isScript, rest)
    | (sign :: letters) :: rest =>
      if sign = '-' ∨ sign = '+' then
        let (isScript, rest) ← startLetters (sign = '-') isScript letters rest
        startOptions fuel isScript rest
      else return (isScript, args)
    | args => return (isScript, args)

/-- Gives the script its name and arguments, if there are any. -/
def named (args : List Text) : Action Unit :=
  match args with
  | [] => return ()
  | name :: arguments => modify fun s => { s with name, arguments }

/-- Runs the script on the input. -/
def runInput (k : Kit) : Action Unit := do
  let s ← get
  let text := (s.unread? 0).getD []
  set (s.advance 0 text.length)
  runScript k .input (withoutNulls text)

/-- Takes the options as they are set before a script runs: whoever asks for commands would control
jobs, too. -/
def settleOptions : Action Unit := do
  if (← get).has 'i' then Builtin.turn true 'm'
  Builtin.refuseMonitor

/-- Starts the shell: with a script among the arguments, behind which stand its name and its
arguments, or with a script's file, or with a script on the input. -/
def start (k : Kit) (args : List Text) : Action Unit := do
  let (isScript, args) ← startOptions (args.length + 1) false args
  let readsInput := (← get).has 's'
  match isScript, args with
  | true, [] => Action.fail "-c requires an argument".toList
  | true, script :: args =>
    named args
    settleOptions
    let run := runScript k .argument script
    let goesOn ← if (← get).isAsking then recovered run else run *> pure true
    if readsInput ∨ !goesOn then runInput k
  | false, args =>
    if args = [] ∨ readsInput then
      modify fun s => { s with arguments := args }
      Builtin.turn true 's'
      settleOptions
      runInput k
    else
      let file := args.headD []
      match readPath? (← get) file with
      | .error e => Action.fail (openFault .read file e)
      | .ok text =>
        named args
        settleOptions
        runScript k .main text

/-- Runs the shell. -/
def runShell (k : Kit) (t : Task) (w : World) : Ending × World :=
  runWhole k (start k t.arguments) (Session.start t w)

/-- Runs a script as a program. -/
def runProgramText (k : Kit) (text : Text) (t : Task) (w : World) : Ending × World :=
  let s := { Session.start t w with arguments := t.arguments }
  runWhole k (runScript k .main (Octets.ofText text)) s

end NotePress.Shell
