import NotePress.Shell.Job

/-!
# Steps of a script

A step changes the session and the jobs of a script, and may stop it.
-/

namespace NotePress.Shell

/-- What stops a list of commands. -/
inductive Stop where
  | break_ (loops : Nat)
  | continue_ (loops : Nat)
  /-- Ends a function, or a script that is read in. -/
  | return_
  | exit
  /-- An error, which ends a script unless a command of the shell may fail. -/
  | failed
  /-- What is asked for was broken off by a signal. -/
  | interrupted
  /-- Ended by a signal. -/
  | killed (signal : Nat)
  /-- The fuel of the run is used up. -/
  | exhausted
  deriving DecidableEq, Repr

/-- A step of a script. -/
abbrev Action := ExceptT Stop (StateT Session (StateM Jobs))

namespace Action

/-- Runs a step, and gives what stopped it. -/
def caught (a : Action Unit) : Action (Option Stop) := do
  match ← (ExceptT.lift a.run : Action (Except Stop Unit)) with
  | .ok () => return none
  | .error e => return some e

/-- Sets the exit code. -/
def finish (status : Nat) : Action Unit := modify fun s => s.finish status

/-- Complains, and goes on. -/
def complain (t : Text) : Action Unit := modify fun s => s.complain t

/-- Complains, and ends with an error. -/
def fail {α : Type} (t : Text) : Action α := do
  modify fun s => (s.complain t).finish 2
  throw .failed

/-- The number that an argument writes. -/
def number (t : Text) : Action Nat :=
  match Session.number? t with
  | some n => return n
  | none => fail ("Illegal number: ".toList ++ t)

/-- Checks that a variable may take a value: it is not fixed, and `OPTIND` is a number. -/
def checkValue (name value : Text) : Action Unit := do
  if ((← get).variableOf? name).any (·.fixed) then fail (name ++ ": is read only".toList)
  if name = "OPTIND".toList then
    let _ ← number value

/-- Sets a variable that may take the value. -/
def assign (name value : Text) : Action Unit := do
  checkValue name value
  modify fun s => s.set name value

/-- Takes a variable away that may change. -/
def unset (name : Text) : Action Unit := do
  checkValue name []
  modify fun s => s.unset name

/-- Writes to the output, and notes if it takes nothing. -/
def say (t : Text) : Action Nat := do
  modify fun s => (s.write? 1 t).getD { s with unwritten := s.unwritten || t ≠ [] }
  return 0

/-- Complains if something could not be written, which adds to an exit code. -/
def checkWritten (status : Nat) : Action Nat := do
  let s ← get
  if !s.unwritten then return status
  set { s with unwritten := false }
  complain (((s.command.map fun c => c ++ ": ".toList).getD []) ++ "I/O error".toList)
  return status ||| 1

/-- Writes messages as they are. -/
def note (t : Text) : Action Unit := modify fun s => s.write 2 t

/-- Runs a step and what follows it whatever stops the step. -/
def finally_ (a : Action Unit) (after : Session → Session) : Action Unit := do
  let stop ← a.caught
  modify after
  match stop with
  | none => return ()
  | some e => throw e

/-- Takes the place in the list of jobs that a new process needs. -/
def claimPlace : Action Nat := do
  let (jobs, place) := (← getThe Jobs).claim
  set jobs
  return place

/-- Runs a step as a process of its own, with a session of its own. What lasts of that is kept. -/
def isolated (inner : Session) (a : Action Unit) : Action Ending := do
  let ((r, inner), _) := (a.run.run inner).run []
  modify fun s => s.resume { inner with world := inner.world.endProcess inner.process }
  match r with
  | .error .exhausted => throw .exhausted
  | .error (.killed n) => return .killed n
  | _ => return .exited (inner.status % 256)

end Action

end NotePress.Shell
