import NotePress.Process.Basic
import NotePress.Process.Concatenate
import NotePress.Process.Utility
import NotePress.Shell.Start

/-!
# A machine with a few programs

Commands are found by their path, or by their name in the directories of the search path. A file
that is no program cannot be started. There are a shell, a program that writes out files, small
programs, and programs that are scripts of the shell.
-/

namespace NotePress

/-- A program that can be started. -/
inductive Program where
  | shell
  | concatenate
  | utility (u : Utility)
  | script (text : Text)
  deriving DecidableEq, Repr

/-- Programs by where they are, and where commands run. -/
structure Machine where
  programs : List (List Text × Program)
  /-- The directories in which commands are looked for, unless a variable says so. -/
  searchPath : List Text
  /-- The directory of commands that are given none. -/
  here : Text
  /-- The variables that all commands see. -/
  environment : List (Text × Text) := []
  deriving Repr

namespace Machine

/-! ### Finding programs -/

/-- The error of a command that cannot be started. -/
def launchError (command : Text) : Hindrance → RunError
  | .access .missing => .notFound command
  | .access e => .launch command e.message
  | .denied => .launch command "Permission denied (os error 13)".toList

/-- What there is at a path: a program, or why it cannot be started. -/
def programAt (m : Machine) (d : Disk) (path : Text) : Except Hindrance Program :=
  match d.locate path with
  | .error e => .error (.access e)
  | .ok names =>
    match m.programs.lookup names with
    | some program => .ok program
    | none => .error .denied

/-- The first program of a name in some directories. A file that is no program is passed over, but
remembered; else the last directory says why there is none. -/
def search (m : Machine) (d : Disk) (name : Text) (denied : Bool) (last : Hindrance) :
    List Text → Except Hindrance Program
  | [] => .error (if denied then .denied else last)
  | directory :: rest =>
    match m.programAt d (Path.join directory name) with
    | .ok program => .ok program
    | .error .denied => search m d name true .denied rest
    | .error (.access e) =>
      if e = .missing ∨ e = .notADirectory then search m d name denied (.access e) rest
      else .error (.access e)

/-- The directories in which commands are looked for: those that a variable names, seen from a
directory, or those of the machine. -/
def searchPathOf (m : Machine) (environment : List (Text × Text)) (directory : Text) : List Text :=
  match environment.reverse.lookup "PATH".toList with
  | some t => (t.splitOn ':').map (Path.join directory)
  | none => m.searchPath

/-- The program of a command. -/
def program (m : Machine) (d : Disk) (command : Text) (environment : List (Text × Text))
    (directory : Text) : Except Hindrance Program :=
  if command.contains '/' then m.programAt d (Path.join directory command)
  else if command = [] then .error (.access .missing)
  else if Disk.nameLimit < Text.byteLength command then .error (.access .nameTooLong)
  else m.search d command false (.access .missing) (m.searchPathOf environment directory)

/-- Whether a program stands at a path. -/
def isProgram (m : Machine) (d : Disk) (path : Text) : Bool := (m.programAt d path).isOk

/-- The path of a program, looked for by its name. -/
def pathOf? (m : Machine) (d : Disk) (name : Text) : Option Text :=
  (m.searchPath.map fun directory => Path.join directory name).find? (m.isProgram d)

/-! ### Running programs -/

/-- Runs programs that may start others, so many levels deep. -/
def perform (m : Machine) : Nat → Program → Task → World → Ending × World
  | 0, _, _, w => (.killed Shell.Signal.kill, w)
  | depth + 1, program, t, w =>
    let runAt := fun (path : Text) (t : Task) (w : World) =>
      (m.programAt w.disk path).map fun program => m.perform depth program t w
    let kit : Shell.Kit := ⟨runAt, m.isProgram⟩
    match program with
    | .shell => Shell.runShell kit t w
    | .script text => Shell.runProgramText kit text t w
    | .concatenate => Concatenate.run t w
    | .utility u => u.run t w

/-- How many levels deep programs may start others. -/
def depthLimit : Nat := 40

/-- The number of the process that starts commands. -/
def firstProcess : Nat := 4241

/-- What the first three streams of a job lead to: its input, its output and its messages. -/
def worldOf (job : Job) (d : Disk) : World :=
  let source : Opening := match job.input with
    | some bytes => .source bytes
    | none => { channel := .nothing, reads := true }
  let w : World := { disk := d, lastProcess := firstProcess, processes := [firstProcess] }
  (((w.add source).add .sink).add .sink).startProcess

/-- The variables that a job sees, each once; the last one of a name counts. -/
def environmentOf (m : Machine) (job : Job) : List (Text × Text) :=
  let all := (m.environment ++ job.environment).reverse
  all.filter fun e => all.lookup e.1 = some e.2

/-- Whether texts that are handed to a program end where they should. -/
def isWhole (job : Job) : Bool :=
  let texts := job.invocation.command :: job.invocation.arguments ++
    job.environment.flatMap fun e => [e.1, e.2]
  texts.all fun t => !t.contains '\x00'

/-- What is left behind by a program that ended. -/
def resultOf (e : Ending) (w : World) : JobResult :=
  let code : Int := match e with
    | .exited code => ((code % 256 : Nat) : Int)
    | .killed _ => -1
  { code, output := w.writtenTo 1, messages := w.writtenTo 2 }

/-- Runs commands on a machine. -/
def runner (m : Machine) : Runner Unit := fun job (_, d) =>
  let directory := Path.join m.here (job.directory.getD m.here)
  let command := job.invocation.command
  let environment := m.environmentOf job
  if !isWhole job then
    (.error (.launch command "nul byte found in provided data".toList), (), d)
  else if !d.isDirectory directory then (.error (.notFound command), (), d)
  else
    match m.program d command environment directory with
    | .error e => (.error (launchError command e), (), d)
    | .ok program =>
      let t : Task :=
        { name := Octets.ofText command, arguments := job.invocation.arguments.map Octets.ofText,
          environment := environment.map fun e => (Octets.ofText e.1, Octets.ofText e.2),
          directory, streams := [(0, 0), (1, 1), (2, 2)], process := firstProcess + 1,
          parent := firstProcess }
      let (ending, w) := m.perform depthLimit program t (worldOf job d)
      (.ok (resultOf ending w), (), w.disk)

end Machine

end NotePress
