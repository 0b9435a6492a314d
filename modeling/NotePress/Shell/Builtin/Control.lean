import NotePress.Shell.Builtin.Argument
import NotePress.Shell.Signal

/-!
# Jumps, signals and jobs

Commands that leave loops, functions and scripts, that send signals or say what is run at them, and
that list what runs in the background.
-/

namespace NotePress.Shell.Builtin

/-! ### Jumps -/

/-- Leaves loops, or goes on with them. -/
def leaveLoops (stop : Nat → Stop) (args : List Text) : Action Nat := do
  let n ← match args with
    | [] => pure 1
    | t :: _ => Action.number t
  if n = 0 then Action.fail ("Illegal number: ".toList ++ args.headD [])
  else
    let loops := (← get).loops
    if loops = 0 then return 0
    else
      Action.finish 0
      throw (stop (min n loops))

/-- Ends the running function. -/
def endFunction (args : List Text) : Action Nat := do
  match args with
  | [] => throw .return_
  | t :: _ =>
    Action.finish (← Action.number t)
    throw .return_

/-- Ends the script. While the commands of a trap run, the exit code is that before them. -/
def endScript (args : List Text) : Action Nat := do
  match args with
  | [] =>
    modify fun s => s.finish (s.trapped.getD s.status)
    throw .exit
  | t :: _ =>
    Action.finish (← Action.number t)
    throw .exit

/-! ### Signals -/

/-- Sets what is done at signals. -/
def setTraps (action : Option Text) : List Text → Action Nat
  | [] => return 0
  | t :: rest => do
    match Signal.number? 0 t with
    | none =>
      Action.note ("trap: ".toList ++ t ++ ": bad trap\n".toList)
      return 1
    | some n =>
      modify fun s =>
        { s with traps := (action.map fun a => (n, a)).toList ++ s.traps.filter (·.1 ≠ n) }
      setTraps action rest

/-- Sets what is done at signals, or lists it. -/
def trap (args : List Text) : Action Nat := do
  match ← operands args with
  | [] =>
    let s ← get
    let line := fun (n : Nat) =>
      match s.traps.lookup n with
      | some action =>
        "trap -- ".toList ++ quoted action ++ ' ' :: Signal.name n ++ ['\n']
      | none => []
    Action.say ((List.range Signal.limit).flatMap line)
  | [t] => setTraps none [t]
  | action :: signals =>
    if (action.all Char.isDigit ∧ (Signal.number? 0 action).isSome) ∧ action ≠ [] then
      setTraps none (action :: signals)
    else setTraps (if action = ['-'] then none else some action) signals

/-- The job that an argument names. -/
def jobNamed (t : Text) : Action BackgroundJob := do
  let name ← match t with
    | '%' :: name => pure name
    | t => Action.fail (JobFault.none.message t)
  match (← getThe Jobs).named name with
  | .ok job => return job
  | .error f => Action.fail (f.message t)

/-- The process that an argument names; none for a group of processes, of which there are none. -/
def processNamed (t : Text) : Action (Option Nat) := do
  match t with
  | '%' :: _ =>
    let _ ← jobNamed t
    return none
  | '-' :: digits =>
    let _ ← Action.number digits
    return none
  | t => return some (← Action.number t)

/-- Sends a signal to a process. -/
def signalTo (signal : Nat) (t : Text) : Action Nat := do
  let target ← processNamed t
  let s ← get
  let own := target.map fun n => if n = 0 then s.process else n
  match own.filter fun n => n = 1 ∨ s.world.processes.contains n with
  | some n =>
    if signal ≠ 0 then
      if n = s.process then Signal.raise signal
      else set { s with world := { s.world with sent := s.world.sent ++ [(n, signal)] } }
    return 0
  | none =>
    Action.complain "No such process\n".toList
    return 1

/-- How `kill` is to be used. -/
def killUsage : Text :=
  ("Usage: kill [-s sigspec | -signum | -sigspec] [pid | job]... or\n" ++
    "kill -l [exitstatus]").toList

/-- Lists the names of signals, or names one by its number or the exit code of what it ended. -/
def listSignals (args : List Text) : Action Nat := do
  match args with
  | [] =>
    let line := fun (n : Nat) => Signal.name (n + 1) ++ ['\n']
    Action.say ("0\n".toList ++ (List.range (Signal.limit - 1)).flatMap line)
  | t :: _ =>
    let n ← Action.number t
    let n := if 128 < n then n - 128 else n
    if 0 < n ∧ n < Signal.limit then Action.say (Signal.name n ++ ['\n'])
    else Action.fail ("invalid signal number or exit status: ".toList ++ t)

/-- The signal of the options of `kill`, and whether signals are to be listed. -/
def killOptions : List (Char × Text) → Action (Option Nat × Bool)
  | [] => return (none, false)
  | ('l', _) :: rest => return ((← killOptions rest).1, true)
  | (_, t) :: rest => do
    match Signal.number? 1 t with
    | some n =>
      let (later, lists) ← killOptions rest
      return (later.or (some n), lists)
    | none => Action.fail ("invalid signal number or name: ".toList ++ t)

/-- Sends a signal to processes. -/
def kill (args : List Text) : Action Nat := do
  let (signal, lists, rest) ← match args with
    | [] => Action.fail killUsage
    | ('-' :: t) :: rest =>
      match Signal.number? 1 t with
      | some n => pure (some n, false, rest)
      | none =>
        let (found, rest) ← options "l" "s" args
        let (signal, lists) ← killOptions found
        pure (signal, lists, rest)
    | args => pure (none, false, args)
  if lists then
    if signal.isSome ∧ rest ≠ [] then Action.fail killUsage else listSignals rest
  else if rest = [] then Action.fail killUsage
  else forEach (signalTo (signal.getD 15)) rest

/-! ### Jobs -/

/-- What is said of how a job is. -/
def stateOf (j : BackgroundJob) : Text :=
  match j.ending? with
  | none => "Running".toList
  | some (.exited 0) => "Done".toList
  | some (.exited code) => "Done(".toList ++ Text.ofNat code ++ [')']
  | some (.killed n) => Signal.describe n

/-- Fills a text with blanks to the place where the commands of jobs stand. -/
def fillState (t : Text) : Text := t ++ List.replicate (max 1 (33 - t.length)) ' '

/-- How jobs are listed. -/
inductive JobListing where
  | states
  | processes
  | leaders
  deriving DecidableEq, Repr

/-- The lines of a job; `mark` says whether it is the last one, or the one before. -/
def jobLines (listing : JobListing) (mark : Char) (j : BackgroundJob) : Text :=
  let leader := j.process + 1 - j.stages
  let heading := ['['] ++ Text.ofNat j.place ++ "] ".toList ++ [mark, ' ']
  match listing with
  | .leaders => Text.ofNat leader ++ ['\n']
  | .states =>
    let more := (List.replicate (j.stages - 1) " | ".toList).flatten
    fillState (heading ++ stateOf j) ++ more ++ ['\n']
  | .processes =>
    let first := fillState (heading ++ Text.ofNat leader ++ ' ' :: stateOf j)
    let later := fun (i : Nat) =>
      let t := List.replicate heading.length ' ' ++ Text.ofNat (leader + i + 1) ++ [' ']
      " |\n".toList ++ fillState t
    first ++ (List.range (j.stages - 1)).flatMap later ++ ['\n']

/-- Lists jobs; one that is done is forgotten then. -/
def listJobs (listing : JobListing) : List BackgroundJob → Action Nat
  | [] => return 0
  | j :: rest => do
    let jobs ← getThe Jobs
    let isJob := fun (other : Option BackgroundJob) => (other.map (·.process)) = some j.process
    let mark := if isJob jobs.head? then '+' else if isJob jobs.tail.head? then '-' else ' '
    let code ← Action.say (jobLines listing mark j)
    if j.ending?.isSome ∧ listing ≠ .leaders then
      set (jobs.filter fun other => other.process ≠ j.process)
    return max code (← listJobs listing rest)

/-- Lists the jobs that are named, or all. -/
def jobs (args : List Text) : Action Nat := do
  let (found, names) ← options "lp" "" args
  let listing := match found.getLast? with
    | some ('l', _) => JobListing.processes
    | some _ => .leaders
    | none => .states
  let named ← names.mapM jobNamed
  let all ← getThe Jobs
  listJobs listing (if names = [] then all else named)

/-- Lets a job go on; there is none that could. -/
def resumeJob (args : List Text) : Action Nat := do
  let job? ← match ← operands args with
    | [] => pure (← getThe Jobs).head?
    | t :: _ => some <$> jobNamed t
  match job? with
  | none => Action.fail (JobFault.noCurrent.message [])
  | some _ =>
    let name := (args.head?).getD "(null)".toList
    Action.fail ("job ".toList ++ name ++ " not created under job control".toList)

end NotePress.Shell.Builtin
