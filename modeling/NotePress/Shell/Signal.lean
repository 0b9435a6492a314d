import NotePress.Shell.Action

/-!
# Signals

Signals have a name and a number. One that comes in runs the commands set for it, is ignored, or
ends the script.
-/

namespace NotePress.Shell.Signal

/-- The names of the signals by number; the first one stands for the end of a script. -/
def names : List String :=
  ["EXIT", "HUP", "INT", "QUIT", "ILL", "TRAP", "ABRT", "BUS", "FPE", "KILL", "USR1", "SEGV",
    "USR2", "PIPE", "ALRM", "TERM", "16", "CHLD", "CONT", "STOP", "TSTP", "TTIN", "TTOU", "URG",
    "XCPU", "XFSZ", "VTALRM", "PROF", "WINCH", "IO", "PWR", "SYS"]

/-- The numbers of signals are below this one. -/
def limit : Nat := 65

/-- The first signal that has no meaning of its own, and the last one. -/
def realTime : Nat := 34

/-- The name of a signal. -/
def name (n : Nat) : Text :=
  match names[n]? with
  | some t => t.toList
  | none =>
    if n < realTime then Text.ofNat n
    else if n = realTime then "RTMIN".toList
    else if n < 50 then "RTMIN+".toList ++ Text.ofNat (n - realTime)
    else if n < 64 then "RTMAX-".toList ++ Text.ofNat (64 - n)
    else "RTMAX".toList

/-- The signal that a word names, from a number on. -/
def number? (least : Nat) (t : Text) : Option Nat :=
  match if t ≠ [] ∧ t.all Char.isDigit then readNat? t else none with
  | some n => if n < limit then some n else none
  | none => ((List.range limit).find? fun n => Text.sameAscii (name n) t).filter fun n => least ≤ n

/-- What the system calls the signals below 32, by number. -/
def descriptions : List String :=
  ["", "Hangup", "Interrupt", "Quit", "Illegal instruction", "Trace/breakpoint trap", "Aborted",
    "Bus error", "Floating point exception", "Killed", "User defined signal 1",
    "Segmentation fault", "User defined signal 2", "Broken pipe", "Alarm clock", "Terminated",
    "Stack fault", "Child exited", "Continued", "Stopped (signal)", "Stopped",
    "Stopped (tty input)", "Stopped (tty output)", "Urgent I/O condition",
    "CPU time limit exceeded", "File size limit exceeded", "Virtual timer expired",
    "Profiling timer expired", "Window changed", "I/O possible", "Power failure",
    "Bad system call"]

/-- What the system calls a signal. -/
def describe (n : Nat) : Text :=
  match descriptions[n]? with
  | some t => t.toList
  | none =>
    if n < realTime then "Unknown signal ".toList ++ Text.ofNat n
    else "Real-time signal ".toList ++ Text.ofNat (n - realTime)

/-- The signals at which the shell does not say that a command was ended. -/
def silent : List Nat := [2, 13]

/-- The signals that nothing is done at unless a trap is set. -/
def isIdle (n : Nat) : Bool := n ∈ [0, 17, 18, 19, 20, 21, 22, 23, 28]

/-- The signal that no trap is run for. -/
def kill : Nat := 9

/-- The signal that comes in when a process ends that the script started. -/
def child : Nat := 17

/-- The signals that came in with another one, in order and each once. -/
def insert (n : Nat) : List Nat → List Nat
  | [] => [n]
  | m :: rest => if n < m then n :: m :: rest else if n = m then m :: rest else m :: insert n rest

/-- Takes a signal that comes in. -/
def raise (n : Nat) : Action Unit := do
  let s ← get
  if n ≠ kill ∧ n ∈ s.ignored then return ()
  else
    match if n = kill then none else s.traps.lookup n with
    | some [] => return ()
    | some _ => set { s with pending := insert n s.pending }
    | none =>
      if isIdle n ∨ (s.isAsking ∧ n ∈ [3, 15]) then return ()
      else if s.isAsking ∧ n = 2 then
        Action.note ['\n']
        Action.finish (128 + n)
        throw .interrupted
      else throw (.killed n)

/-- Takes the signals that were sent to the process of the script. -/
def takeSent : Action Unit := do
  let s ← get
  if s.world.sent.isEmpty then return ()
  else
    let (own, others) := s.world.sent.partition fun m => m.1 = s.process
    set { s with world := { s.world with sent := others } }
    for m in own do
      raise m.2

/-- Says how a process was ended that the script waited for, and notes that it did. -/
def report (e : Ending) : Action Unit := do
  match e with
  | .killed n => if n ∈ silent then return () else Action.note (describe n ++ ['\n'])
  | .exited _ => return ()

end NotePress.Shell.Signal
