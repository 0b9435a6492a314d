import NotePress.CommandLine
import NotePress.Disk.Basic

/-!
# Running commands

A runner takes a command with its arguments, its directory and its input, runs it to its end, and
says what it wrote. A command may change files, so a runner takes the disk and gives it back, with
whatever state of its own it needs. An exit code other than zero is no error here.
-/

namespace NotePress

/-- A command to run. -/
structure Job where
  invocation : Invocation
  /-- The directory it runs in; none means that of the caller. -/
  directory : Option Text := none
  /-- What it reads; none means nothing. -/
  input : Option (List UInt8) := none
  /-- Variables that it sees beside those of the caller; the last one of a name counts. -/
  environment : List (Text × Text) := []
  deriving DecidableEq, Repr

/-- What a command left behind. -/
structure JobResult where
  /-- The exit code, `-1` if a signal ended the command. -/
  code : Int
  output : List UInt8 := []
  messages : List UInt8 := []
  deriving DecidableEq, Repr

/-- Why a command could not be run. -/
inductive RunError where
  /-- There is no such command. -/
  | notFound (command : Text)
  /-- The command cannot be started. -/
  | launch (command cause : Text)
  /-- Talking to the running command failed. -/
  | io (cause : Text)
  deriving DecidableEq, Repr

/-- Runs commands, with some state of its own, on a disk. -/
abbrev Runner (σ : Type) := Job → σ × Disk → Except RunError JobResult × σ × Disk

namespace JobResult

/-- Whether the command ended well. -/
def succeeded (r : JobResult) : Bool := r.code = 0

/-- The output as text; bytes that are none become replacement characters. -/
def outputText (r : JobResult) : Text := Text.decodeLossy r.output

/-- The messages as text. -/
def messagesText (r : JobResult) : Text := Text.decodeLossy r.messages

end JobResult

namespace RunError

/-- The text of an error. -/
def message : RunError → Text
  | notFound command => "Command not found: ".toList ++ command
  | launch command cause => "Failed to launch '".toList ++ command ++ "': ".toList ++ cause
  | io cause => "I/O error: ".toList ++ cause

/-- Whether the command never started. -/
def neverStarted : RunError → Bool
  | notFound _ => true
  | launch _ _ => true
  | io _ => false

end RunError

end NotePress
