import NotePress.Shell.Builtin

/-!
# Starting programs and reading files

How a script starts a program, in a process of its own or in its place, what it says if that fails,
and where it finds the text of another script.
-/

namespace NotePress.Shell

/-- What a script runs programs with. -/
structure Kit where
  /-- Runs the program at an absolute path. -/
  run : Text → Task → World → Except Hindrance (Ending × World)
  /-- Whether a program stands at a path. -/
  isProgram : Disk → Text → Bool

/-! ### Programs -/

/-- What the shell says if a program cannot be started, and the exit code. -/
def launchFault : Hindrance → Text × Nat
  | .denied => ("Permission denied".toList, 126)
  | .access .missing => ("not found".toList, 127)
  | .access .notADirectory => ("not found".toList, 127)
  | .access e => (((e.system?).map (·.2)).getD e.message, if e = .nameTooLong then 127 else 126)

/-- Whether the shell tries to start a program of a name, so that it waits for it. -/
def startable (k : Kit) (s : Session) (name : Text) : Bool :=
  name.contains '/' || (Builtin.programPath? k.isProgram s name).isSome

/-- Notes how a process ended that the script waited for. -/
def settle (e : Ending) : Action Unit := do
  Action.finish e.code
  Signal.report e
  Signal.raise Signal.child

/-- Ends the script as the program ends that took its place. -/
def endAs (e : Ending) : Action Unit := do
  match e with
  | .exited code =>
    modify fun s => { s.finish code with traps := [] }
    throw .exit
  | .killed n => throw (.killed n)

/-- Runs a program to its end, in place of the script or in a process of its own; complains if it
could not be started. `usual` says that it is looked for in the usual directories. -/
def runProgram (k : Kit) (usual inPlace : Bool) (name : Text) (args : List Text) :
    Action (Option Ending) := do
  let refuse := fun (why : Text) (code : Nat) => do
    Action.complain (name ++ ": ".toList ++ why)
    Action.finish code
    return none
  let path? ← if name.contains '/' then pure (some name) else Builtin.locate? k.isProgram usual name
  match path? with
  | none => refuse (Builtin.searchFault (← get) name) 127
  | some path =>
    if !inPlace then
      let _ ← Action.claimPlace
    let s ← get
    let inner := if inPlace then s else s.fork
    match k.run (s.path path) (inner.task name args) inner.world with
    | .ok (ending, world) =>
      set { s with world := if inPlace then world else world.endProcess inner.process }
      return some ending
    | .error h =>
      let (why, code) := launchFault h
      refuse why code

/-! ### Texts of scripts -/

/-- Where a script that is read in finds its file: behind a path, or in the search path. -/
def scriptPath? (s : Session) (name : Text) : Option Text :=
  if name.contains '/' then some name
  else
    (Builtin.candidates s name).find? fun path => s.disk.isFile (s.path path)

/-- A text without the characters that no script can hold. -/
def withoutNulls (t : Text) : Text := t.filter (· ≠ '\x00')

/-- The text of a script at a path. -/
def readPath? (s : Session) (path : Text) : Except AccessError Text :=
  (s.openPath .read path).map fun (index, world) =>
    let text := fun (o : Opening) => withoutNulls (Octets.ofBytes (o.unread world.disk))
    (world.openings[index]?.map text).getD []

end NotePress.Shell
