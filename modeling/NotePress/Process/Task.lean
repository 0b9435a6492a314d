import NotePress.Process.Limit
import NotePress.Process.Stream
import NotePress.Text.Octets

/-!
# Tasks

A task is what a program is started with: its arguments, the variables that it sees, its directory
and its streams. A program runs in the world of its machine and ends with an exit code or by a
signal. What it is called, its arguments and variables are rows of octets.
-/

namespace NotePress

/-- What a program is started with. -/
structure Task where
  /-- What it is called. -/
  name : Text
  arguments : List Text := []
  /-- The variables that it sees. -/
  environment : List (Text × Text) := []
  directory : Text
  streams : Streams
  /-- The number of its process, and of the one that started it. -/
  process : Nat
  parent : Nat
  /-- The signals that it is to ignore. -/
  ignored : List Nat := []
  /-- The permissions that new files do not get. -/
  mask : Nat := 0o022
  /-- Its limits, by the letters of the resources. -/
  limits : List (Char × Limit) := resources.map fun r => (r.letter, r.initial)
  deriving Repr

/-- How a program ends. -/
inductive Ending where
  | exited (code : Nat)
  | killed (signal : Nat)
  deriving DecidableEq, Repr

/-- The exit code by which a shell knows an ending. -/
def Ending.code : Ending → Nat
  | exited code => code % 256
  | killed signal => 128 + signal

/-- Why a program cannot be started. -/
inductive Hindrance where
  | access (e : AccessError)
  /-- The file is no program. -/
  | denied
  deriving DecidableEq

namespace Task

/-- Writes to a stream, if it takes anything. -/
def write (t : Task) (stream : Nat) (octets : Text) (w : World) : World :=
  (w.write t.streams stream (Octets.toBytes octets)).toOption.getD w

/-- Complains in a line of its own. -/
def complain (t : Task) (octets : Text) (w : World) : World :=
  t.write 2 (t.name ++ ": ".toList ++ octets ++ ['\n']) w

/-- Says that the program is used in a wrong way. -/
def refuse (t : Task) (octets : Text) (w : World) : World :=
  t.write 2 ("Try '".toList ++ t.name ++ " --help' for more information.\n".toList)
    (t.complain octets w)

/-- The absolute path of a file as the program names it; the empty name stays empty. -/
def path (t : Task) (name : Text) : Text :=
  if name = [] then [] else Path.join t.directory (Octets.toText name)

end Task

end NotePress
