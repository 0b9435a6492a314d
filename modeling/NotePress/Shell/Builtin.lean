import NotePress.Shell.Builtin.Control
import NotePress.Shell.Builtin.Directory
import NotePress.Shell.Builtin.Lookup
import NotePress.Shell.Builtin.Permission
import NotePress.Shell.Builtin.Setting
import NotePress.Shell.Condition
import NotePress.Shell.Field
import NotePress.Shell.Printing

/-!
# What the shell does itself

The commands that need no program and run no others: writing, testing, reading a line, and changing
the session. Each is given its arguments and ends with an exit code. The special ones end the script
if they fail, the others only the command.
-/

namespace NotePress.Shell.Builtin

/-! ### Writing and testing -/

/-- Writes by a format. What is wrong with arguments is said in front of it. -/
def printf (args : List Text) : Action Nat := do
  match ← operands args with
  | [] => Action.fail "usage: printf format [arg ...]".toList
  | layout :: args =>
    let (printed, fault) := Printing.printAll layout (args.length + 1) { args }
    for t in printed.complaints do
      Action.complain t
    match fault with
    | some t =>
      Action.complain t
      let _ ← Action.say printed.text
      Action.finish 2
      throw .failed
    | none =>
      let code ← Action.say printed.text
      return if printed.complaints.isEmpty then code else 1

/-- The exit code of a condition. -/
def test (isProgram : Disk → Text → Bool) (args : List Text) : Action Nat :=
  return if ← Condition.evaluate isProgram false args then 0 else 1

/-! ### Reading a line -/

/-- A line off the front of octets, how many of them it takes, and whether its end was found. Behind
a backslash an octet counts as quoted and a line goes on. -/
def lineOf (raw : Bool) : (escaped : Bool) → (count : Nat) → List Letter → Text →
    List Letter × Nat × Bool
  | _, count, line, [] => (line.reverse, count, false)
  | escaped, count, line, c :: rest =>
    if c = '\x00' then lineOf raw escaped (count + 1) line rest
    else if escaped then
      lineOf raw false (count + 1) (if c = '\n' then line else ⟨c, true⟩ :: line) rest
    else if c = '\\' ∧ !raw then lineOf raw true (count + 1) line rest
    else if c = '\n' then (line.reverse, count + 1, true)
    else lineOf raw false (count + 1) (⟨c, false⟩ :: line) rest

/-- Sets variables to values, one after the other; to nothing where there are none left. -/
def assignAll : List Text → List Text → Action Unit
  | [], _ => return ()
  | name :: names, values => do
    assignTo name (values.headD [])
    assignAll names values.tail

/-- Reads a line into variables. -/
def readVariables (args : List Text) : Action Nat := do
  let (found, names) ← options "r" "p" args
  if names = [] then Action.fail "arg count".toList
  else
    let s ← get
    let unread := (s.unread? 0).getD []
    let raw := (found.lookup 'r').isSome
    let (line, count, ended) := lineOf raw false 0 [] unread
    set (s.advance 0 count)
    assignAll names ((lineFields s.separators names.length line).map textOf)
    return if ended then 0 else 1

/-! ### The table -/

/-- What the shell does at a command, if it runs it by itself. -/
def table (isProgram : Disk → Text → Bool) (name : Text) : Option (List Text → Action Nat) :=
  match String.ofList name with
  | ":" => some fun _ => return 0
  | "true" => some fun _ => return 0
  | "false" => some fun _ => return 1
  | "echo" => some fun args => Action.say (Printing.echo args)
  | "printf" => some printf
  | "test" => some (test isProgram)
  | "[" => some fun args =>
    if (args.getLast?.bind List.head?) = some ']' then test isProgram args.dropLast
    else Action.fail "missing ]".toList
  | "cd" => some changeDirectory
  | "chdir" => some changeDirectory
  | "pwd" => some showDirectory
  | "read" => some readVariables
  | "set" => some configure
  | "shift" => some shift
  | "export" => some exportVariables
  | "readonly" => some fixVariables
  | "unset" => some unsetNames
  | "local" => some makeLocal
  | "break" => some (leaveLoops .break_)
  | "continue" => some (leaveLoops .continue_)
  | "return" => some endFunction
  | "exit" => some endScript
  | "trap" => some trap
  | "kill" => some kill
  | "getopts" => some getopts
  | "type" => some (forEach (describe isProgram false true))
  | "command" => some (command isProgram)
  | "umask" => some umask
  | "hash" => some (hash isProgram)
  | "jobs" => some jobs
  | "alias" => some aliases
  | "unalias" => some unaliases
  | "ulimit" => some ulimit
  | "times" => some fun _ =>
    Action.say "0m0.000000s 0m0.000000s\n0m0.000000s 0m0.000000s\n".toList
  | "fg" => some resumeJob
  | "bg" => some resumeJob
  | _ => none

end NotePress.Shell.Builtin
