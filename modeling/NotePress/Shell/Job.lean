import NotePress.Shell.Session

/-!
# Jobs

The commands that a script runs in the background. One goes on when the script waits for something,
with the session as it was when it was started, but for the world. It is known by the number of its
process, and by a place in a list, which it keeps until it is done, waited for, and another one
takes it.
-/

namespace NotePress.Shell

/-- How far a job is. -/
inductive JobState where
  | running (session : Session) (command : Command)
  | done (e : Ending)

/-- A command in the background. -/
structure BackgroundJob where
  place : Nat
  /-- The number of its process. -/
  process : Nat
  /-- The number of commands in its pipeline. -/
  stages : Nat
  state : JobState
  /-- Whether the script knows that it is done. -/
  waited : Bool := false

/-- The jobs of a script, the last one first. -/
abbrev Jobs := List BackgroundJob

namespace BackgroundJob

/-- How a job ended, if it did. -/
def ending? (j : BackgroundJob) : Option Ending :=
  match j.state with
  | .running _ _ => none
  | .done e => some e

/-- Whether a job only keeps its place. -/
def isSettled (j : BackgroundJob) : Bool := j.waited && j.ending?.isSome

end BackgroundJob

namespace Jobs

/-- The jobs without the one whose place a new process takes, and the place: the first one that no
job has or that a settled one has. -/
def claim (jobs : Jobs) : Jobs × Nat :=
  let isTaken := fun (n : Nat) => jobs.any fun j => j.place = n && !j.isSettled
  let place := ((List.range (jobs.length + 1)).find? fun n => !isTaken (n + 1)).getD jobs.length + 1
  (jobs.filter fun j => j.place ≠ place, place)

/-- The job of a process. -/
def ofProcess? (jobs : Jobs) (process : Nat) : Option BackgroundJob :=
  jobs.find? fun j => j.process = process

/-- Changes the job of a process. -/
def update (jobs : Jobs) (process : Nat) (f : BackgroundJob → BackgroundJob) : Jobs :=
  jobs.map fun j => if j.process = process then f j else j

end Jobs

/-- What is wrong with the name of a job. -/
inductive JobFault where
  | none
  | noCurrent
  | noPrevious
  | ambiguous
  deriving DecidableEq, Repr

/-- What the shell says about a job of a name. -/
def JobFault.message (f : JobFault) (name : Text) : Text :=
  match f with
  | .none => "No such job: ".toList ++ name
  | .noCurrent => "No current job".toList
  | .noPrevious => "No previous job".toList
  | .ambiguous => name ++ ": ambiguous".toList

namespace Jobs

/-- The only job of a list, for a name that fits all commands of jobs. -/
def single (jobs : Jobs) : Except JobFault BackgroundJob :=
  match jobs with
  | [] => .error .none
  | [j] => .ok j
  | _ => .error .ambiguous

/-- The job of a name behind its percent sign: the last one, the one before, or one by its place.
The jobs of a script have no text that could be part of a name. -/
def named (jobs : Jobs) (name : Text) : Except JobFault BackgroundJob :=
  let orFault := fun (j : Option BackgroundJob) (f : JobFault) =>
    match j with
    | some j => Except.ok j
    | none => .error f
  match name with
  | [] => orFault jobs.head? .noCurrent
  | ['%'] => orFault jobs.head? .noCurrent
  | ['+'] => orFault jobs.head? .noCurrent
  | ['-'] => orFault jobs.tail.head? .noPrevious
  | ['?'] => jobs.single
  | _ =>
    match if name.all Char.isDigit then readNat? name else none with
    | some n => orFault (jobs.find? fun j => j.place = n) .none
    | none => .error .none

end Jobs

end NotePress.Shell
