import NotePress.Process.Task
import NotePress.Shell.Script
import NotePress.Text.Digit

/-!
# Sessions of a shell

What a running script can change: variables, functions, options, its directory, its streams, what it
does when it ends, and the world that it shares with other processes.
-/

namespace NotePress.Shell

/-- A variable. -/
structure Variable where
  /-- Its value; none if it is only marked. -/
  value : Option Text
  /-- Whether programs see it. -/
  exported : Bool := false
  /-- Whether it cannot change. -/
  fixed : Bool := false
  deriving DecidableEq, Repr

/-- Where a program was found. -/
structure Located where
  path : Text
  /-- Whether it has to be looked for again, since the directory is another one. -/
  stale : Bool := false
  deriving DecidableEq, Repr

/-- The state of a running script. -/
structure Session where
  /-- The name of the script, or of the shell. -/
  name : Text
  arguments : List Text
  bindings : List (Text × Variable)
  functions : List (Text × Command) := []
  /-- Texts that stand for words of a script. -/
  aliases : List (Text × Text) := []
  /-- The letters of the options that are set. -/
  options : Text := []
  directory : Text
  world : World
  streams : Streams
  /-- The number of its process, and of the one that started it. -/
  process : Nat
  parent : Nat
  /-- The number of the process that the script began in. -/
  root : Nat
  /-- The exit code of the last command. -/
  status : Nat := 0
  /-- The exit code of the last substitution in the current command. -/
  substituted : Nat := 0
  /-- The line of the current command; zero before the first one. -/
  line : Nat := 0
  /-- The command of the shell that runs, for messages. -/
  command : Option Text := none
  /-- Whether something could not be written that the current command wrote to the output. -/
  unwritten : Bool := false
  /-- The here-documents of the script, by number. -/
  documents : List (Nat × Word) := []
  nextDocument : Nat := 0
  /-- What is run at the end, for which zero stands, or at a signal. -/
  traps : List (Nat × Text) := []
  /-- The signals that are ignored whatever traps are set for them. -/
  ignored : List Nat := []
  /-- The signals that came in while traps are set for them. -/
  pending : List Nat := []
  /-- The exit code before a trap, while its commands run. -/
  trapped : Option Nat := none
  /-- The variables that running functions keep to themselves, as they were before. -/
  frames : List (List (Text × Option Variable)) := []
  /-- The number of functions that run. -/
  calls : Nat := 0
  /-- The number of loops that run. -/
  loops : Nat := 0
  /-- The number of the last command in the background. -/
  lastJob : Option Nat := none
  /-- The argument in which options are read, and how far they were read in it. -/
  optionIndex : Nat := 1
  optionPlace : Nat := 0
  /-- The permissions that new files do not get. -/
  mask : Nat := 0o022
  /-- The limits of its process, by the letters of the resources. -/
  limits : List (Char × Limit)
  /-- The programs that were found, the last one first. -/
  located : List (Text × Located) := []

namespace Session

/-- The variables of an environment; what is no name is left out. -/
def variablesOf (environment : List (Text × Text)) : List (Text × Variable) :=
  let all := environment.filterMap fun (name, value) =>
    (Text.cutAt? '=' (name ++ '=' :: value)).filter fun p => isName p.1
  all.foldl
    (fun vs (name, value) =>
      (name, { value := some value, exported := true }) :: vs.filter (·.1 ≠ name)) []

/-- The directories in which programs usually are. -/
def usualPath : Text := "/usr/local/sbin:/usr/local/bin:/usr/sbin:/usr/bin:/sbin:/bin".toList

/-- The variables that the shell sets where they are not given. -/
def defaults (directory : Text) : List (Text × Text) :=
  [("PATH".toList, usualPath),
    ("PWD".toList, Octets.ofText directory), ("PS1".toList, "# ".toList),
    ("PS2".toList, "> ".toList), ("PS4".toList, "+ ".toList)]

/-- The variables that the shell sets whether they are given or not. -/
def fresh (parent : Nat) : List (Text × Text) :=
  [("IFS".toList, " \t\n".toList), ("OPTIND".toList, ['1']), ("PPID".toList, Text.ofNat parent)]

/-- The session of a script that starts as a task. -/
def start (t : Task) (w : World) : Session :=
  let given := variablesOf t.environment
  let fresh := fresh t.parent
  let missing := (defaults t.directory ++ fresh).filter fun v => (given.lookup v.1).isNone
  let renewed := fun (v : Text × Variable) =>
    match fresh.lookup v.1 with
    | some value => (v.1, { v.2 with value := some value })
    | none => v
  { name := t.name, arguments := [], directory := t.directory, world := w, streams := t.streams,
    bindings := given.map renewed ++ missing.map fun v => (v.1, { value := some v.2 }),
    process := t.process, parent := t.parent, root := t.process, ignored := t.ignored,
    mask := t.mask, limits := t.limits }

/-- The files that the script sees. -/
def disk (s : Session) : Disk := s.world.disk

/-- A variable. -/
def variableOf? (s : Session) (name : Text) : Option Variable := s.bindings.lookup name

/-- The value of a variable. -/
def get? (s : Session) (name : Text) : Option Text := (s.variableOf? name).bind (·.value)

/-- Whether an option is set. -/
def has (s : Session) (option : Char) : Bool := s.options.contains option

/-- Whether the script is asked for line by line, so that errors do not end it. Parts of it that run
on their own are not. -/
def isAsking (s : Session) : Bool := s.has 'i' && s.process = s.root

/-- Whether a text writes a number that an argument may be. -/
def number? (t : Text) : Option Nat :=
  let isBlank := fun (c : Char) => c = ' ' || ('\t' ≤ c && c ≤ '\r')
  let digits := Text.dropTail isBlank (t.dropWhile isBlank)
  let digits := match digits with
    | '+' :: rest => rest
    | digits => digits
  if digits ≠ [] ∧ digits.all Char.isDigit then
    (readNat? digits).filter fun n => n ≤ 0x7fffffff
  else none

/-- What changes with the value of a variable: options are read from the argument that `OPTIND`
names on, and programs are looked for in other directories. -/
def renew (s : Session) (name : Text) (value : Option Text) : Session :=
  if name = "OPTIND".toList then
    { s with optionIndex := max 1 ((value.bind number?).getD 1), optionPlace := 0 }
  else if name = "PATH".toList then { s with located := [] }
  else s

/-- Puts a variable in place. -/
def put (s : Session) (name : Text) (v : Variable) : Session :=
  { s with bindings := (name, v) :: s.bindings.filter (·.1 ≠ name) }

/-- Sets a variable that may change. -/
def set (s : Session) (name value : Text) : Session :=
  let v := (s.variableOf? name).getD { value := none }
  let v := { v with value := some value, exported := v.exported || s.has 'a' }
  (s.put name v).renew name value

/-- Takes a variable away. -/
def unset (s : Session) (name : Text) : Session :=
  ({ s with bindings := s.bindings.filter (·.1 ≠ name) }).renew name none

/-- Puts a variable back as it was before; the options, if it is named by a dash. -/
def restore (s : Session) (name : Text) (v : Option Variable) : Session :=
  match v with
  | some v =>
    if name = ['-'] then { s with options := v.value.getD [] }
    else (s.put name v).renew name v.value
  | none => s.unset name

/-- Sets the exit code. -/
def finish (s : Session) (status : Nat) : Session := { s with status }

/-- The variables that commands see. -/
def environment (s : Session) : List (Text × Text) :=
  s.bindings.filterMap fun (name, v) =>
    if v.exported then v.value.map fun t => (name, t) else none

/-- The separators of fields. -/
def separators (s : Session) : Text := (s.get? "IFS".toList).getD " \t\n".toList

/-- What joins arguments: the first separator, or a blank. -/
def joiner (s : Session) : Text :=
  match s.get? "IFS".toList with
  | some t => t.take 1
  | none => [' ']

/-- The path of a file as the script names it. -/
def path (s : Session) (t : Text) : Text :=
  if t = [] then [] else Path.join s.directory (Octets.toText t)

/-- Writes to something open, by its number; `none` if it takes nothing. -/
def writeTo? (s : Session) (index : Nat) (octets : Text) : Option Session :=
  ((s.world.writeTo index (Octets.toBytes octets)).toOption).map fun world => { s with world }

/-- Writes to a stream; `none` if it takes nothing. -/
def write? (s : Session) (stream : Nat) (octets : Text) : Option Session :=
  (s.streams.lookup stream).bind fun index => s.writeTo? index octets

/-- Writes to a stream, if it takes anything. -/
def write (s : Session) (stream : Nat) (octets : Text) : Session :=
  (s.write? stream octets).getD s

/-- The octets that a stream still gives; none if it gives none. -/
def unread? (s : Session) (stream : Nat) : Option Text :=
  ((s.world.unread s.streams stream).toOption).map Octets.ofBytes

/-- Goes past octets that were read. -/
def advance (s : Session) (stream count : Nat) : Session :=
  { s with world := s.world.advance s.streams stream count }

/-- Opens something new for a stream. -/
def openStream (s : Session) (stream : Nat) (o : Opening) : Session :=
  { s with world := s.world.add o, streams := s.streams.direct stream s.world.openings.size }

/-- Writes a message, with the name of the script, the line, and the command it is about. -/
def complain (s : Session) (t : Text) : Session :=
  let command := (s.command.map fun c => c ++ ": ".toList).getD []
  s.write 2 (s.name ++ ": ".toList ++ Text.ofNat s.line ++ ": ".toList ++ command ++ t ++ ['\n'])

/-- The session with what lasts of another one: the world, and the here-documents that were read. -/
def resume (s other : Session) : Session :=
  { s with
    world := other.world, documents := other.documents, nextDocument := other.nextDocument }

/-- The signals that nothing is done at. -/
def ignoredSignals (s : Session) : List Nat :=
  s.ignored ++ s.traps.filterMap fun t => if t.2 = [] then some t.1 else none

/-- The session in which a part of the script runs as a process of its own; of its traps only those
last that ignore a signal. -/
def fork (s : Session) : Session :=
  { s with
    process := s.world.lastProcess + 1, parent := s.process, world := s.world.startProcess,
    traps := s.traps.filter fun t => t.2 = [], pending := [] }

/-- The task of a program that the script starts. -/
def task (s : Session) (name : Text) (arguments : List Text) : Task :=
  { name, arguments, environment := s.environment, directory := s.directory, streams := s.streams,
    process := s.process, parent := s.parent, ignored := s.ignoredSignals, mask := s.mask,
    limits := s.limits }

end Session

/-! ### Opening files -/

/-- What the shell says about a file that cannot be opened. -/
def openFault (mode : OpenMode) (path : Text) (e : AccessError) : Text :=
  let (verb, missing) :=
    if mode = .read then ("cannot open ", "No such file")
    else ("cannot create ", "Directory nonexistent")
  let why := match e with
    | .missing => missing.toList
    | .notADirectory => missing.toList
    | e => ((e.system?).map (·.2)).getD []
  verb.toList ++ path ++ ": ".toList ++ why

namespace Session

/-- Opens a path; gives the number of what is open. -/
def openPath (s : Session) (mode : OpenMode) (t : Text) : Except AccessError (Nat × World) :=
  s.world.openPath s.streams (s.has 'C') mode (s.path t)

end Session

end NotePress.Shell
