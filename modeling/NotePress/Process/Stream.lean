import NotePress.Disk.Basic

/-!
# Streams

A process reads and writes through streams, which are numbers. What is open belongs to no process:
a stream only leads to it, so that several streams, also of several processes, share the place up to
which it was read or written. Pipes hold what is written into them until it is read.
-/

namespace NotePress

/-- What can be open. -/
inductive Channel where
  /-- Takes everything and holds nothing. -/
  | nothing
  /-- Takes nothing, since it is full. -/
  | full
  /-- Nobody sits at the other end. -/
  | terminal
  | pipe (bytes : Array UInt8)
  | file (names : List Text)
  | directory (names : List Text)
  deriving Repr

/-- Something open. -/
structure Opening where
  channel : Channel
  /-- How many bytes were read or written. -/
  place : Nat := 0
  reads : Bool := false
  writes : Bool := false
  /-- Whether writing goes to the end. -/
  appends : Bool := false
  deriving Repr

/-- How a path is opened. -/
inductive OpenMode where
  | read
  | write
  /-- Writes even where files are not to be overwritten. -/
  | overwrite
  | append
  | readWrite
  deriving DecidableEq, Repr

/-- Why a stream cannot be read or written. -/
inductive StreamFault where
  /-- It leads to nothing, or to what is not open for that. -/
  | closed
  | full
  | directory
  deriving DecidableEq, Repr

/-- The text of a fault. -/
def StreamFault.message : StreamFault → Text
  | closed => "Bad file descriptor".toList
  | full => "No space left on device".toList
  | directory => "Is a directory".toList

namespace Opening

/-- Bytes to read. -/
def source (bytes : List UInt8) : Opening := { channel := .pipe bytes.toArray, reads := true }

/-- A place to write to. -/
def sink : Opening := { channel := .pipe #[], writes := true }

/-- What was written into a pipe. -/
def written (o : Opening) : List UInt8 :=
  match o.channel with
  | .pipe bytes => bytes.toList
  | _ => []

/-- The bytes that are still to be read. -/
def unread (d : Disk) (o : Opening) : List UInt8 :=
  match o.channel with
  | .pipe bytes => (bytes.extract o.place bytes.size).toList
  | .file names =>
    match d.entry? names with
    | some (.file bytes) => bytes.drop o.place
    | _ => []
  | _ => []

/-- Bytes with others over them from a place on; zeros fill a gap. -/
def overwrite (before : List UInt8) (place : Nat) (bytes : List UInt8) : List UInt8 :=
  before.take place ++ List.replicate (place - before.length) 0 ++ bytes ++
    before.drop (place + bytes.length)

/-- Writes bytes. -/
def write (d : Disk) (o : Opening) (bytes : List UInt8) : Except StreamFault (Opening × Disk) :=
  if !o.writes then .error .closed
  else
    match o.channel with
    | .nothing => .ok (o, d)
    | .full => if bytes = [] then .ok (o, d) else .error .full
    | .terminal => .error .closed
    | .pipe before => .ok ({ o with channel := .pipe (before ++ bytes) }, d)
    | .directory _ => .error .directory
    | .file names =>
      let before := match d.entry? names with
        | some (.file bytes) => bytes
        | _ => []
      let place := if o.appends then before.length else o.place
      .ok ({ o with place := place + bytes.length },
        d.put names (.file (overwrite before place bytes)))

end Opening

/-! ### Tables -/

/-- The streams of a process, each with the number of what it leads to. -/
abbrev Streams := List (Nat × Nat)

namespace Streams

/-- Lets a stream lead to what has a number. -/
def direct (s : Streams) (stream index : Nat) : Streams :=
  (stream, index) :: s.filter (·.1 ≠ stream)

/-- Closes a stream. -/
def close (s : Streams) (stream : Nat) : Streams := s.filter (·.1 ≠ stream)

end Streams

/-! ### What processes share -/

/-- What all processes of a machine share. -/
structure World where
  disk : Disk
  /-- All that was opened. -/
  openings : Array Opening := #[]
  /-- The number of the last process. -/
  lastProcess : Nat := 0
  /-- The numbers of the processes that have not ended. -/
  processes : List Nat := []
  /-- Signals that were sent to processes by their numbers, and that these have not taken yet. -/
  sent : List (Nat × Nat) := []
  deriving Repr

namespace World

/-- Starts a process, which takes the next number. -/
def startProcess (w : World) : World :=
  { w with lastProcess := w.lastProcess + 1, processes := (w.lastProcess + 1) :: w.processes }

/-- Notes that a process ended. -/
def endProcess (w : World) (process : Nat) : World :=
  { w with processes := w.processes.filter (· ≠ process) }

/-- Opens something, which takes the number of all that was opened before. -/
def add (w : World) (o : Opening) : World := { w with openings := w.openings.push o }

/-- Exchanges what has a number. -/
def exchange (w : World) (index : Nat) (o : Opening) : World :=
  { w with openings := w.openings.setIfInBounds index o }

/-- What was written into the pipe of a number. -/
def writtenTo (w : World) (index : Nat) : List UInt8 :=
  ((w.openings[index]?).map Opening.written).getD []

/-- What a stream leads to. -/
def opening? (w : World) (s : Streams) (stream : Nat) : Option Opening :=
  (s.lookup stream).bind fun index => w.openings[index]?

/-- Writes to what has a number. -/
def writeTo (w : World) (index : Nat) (bytes : List UInt8) : Except StreamFault World :=
  match w.openings[index]? with
  | none => .error .closed
  | some o =>
    -- the place is emptied first, so that the bytes in a pipe are not copied
    let w := w.exchange index { o with channel := .nothing }
    (o.write w.disk bytes).map fun (o, disk) => { w.exchange index o with disk }

/-- Writes to a stream. -/
def write (w : World) (s : Streams) (stream : Nat) (bytes : List UInt8) :
    Except StreamFault World :=
  match s.lookup stream with
  | some index => w.writeTo index bytes
  | none => .error .closed

/-- The bytes that a stream still gives. -/
def unread (w : World) (s : Streams) (stream : Nat) : Except StreamFault (List UInt8) :=
  match w.opening? s stream with
  | none => .error .closed
  | some o =>
    match o.channel with
    | .directory _ => .error .directory
    | _ => if o.reads then .ok (o.unread w.disk) else .error .closed

/-- Goes past bytes that were read. -/
def advance (w : World) (s : Streams) (stream count : Nat) : World :=
  match s.lookup stream, w.opening? s stream with
  | some index, some o => w.exchange index { o with place := o.place + count }
  | _, _ => w

/-! ### Opening paths -/

/-- A path without empty pieces and without dots that name nothing. -/
def plainPath (path : Text) : Text :=
  Path.ofNames ((path.splitOn '/').filter fun p => p ≠ [] ∧ p ≠ ['.'])

/-- The channel of a device, by its path. -/
def device? (path : Text) : Option Channel :=
  match String.ofList (plainPath path) with
  | "/dev/null" => some .nothing
  | "/dev/zero" => some .nothing
  | "/dev/random" => some .nothing
  | "/dev/urandom" => some .nothing
  | "/dev/tty" => some .terminal
  | "/dev/full" => some .full
  | _ => none

/-- The stream that a path stands for. -/
def streamAt? (path : Text) : Option Nat :=
  match String.ofList (plainPath path) with
  | "/dev/stdin" => some 0
  | "/dev/stdout" => some 1
  | "/dev/stderr" => some 2
  | t =>
    let digits := Text.dropOpening? "/dev/fd/".toList t.toList
    (digits.filter fun t => t ≠ [] ∧ t.all Char.isDigit).map fun t =>
      t.foldl (fun n c => n * 10 + (c.toNat - '0'.toNat)) 0

/-- Something open in a mode, from its beginning on. -/
def opened (mode : OpenMode) (channel : Channel) : Opening :=
  { channel, reads := mode = .read || mode = .readWrite, writes := mode ≠ .read,
    appends := mode = .append }

/-- Opens a file by its names; writing makes it empty unless it goes to its end or reads, too. -/
def openFile (w : World) (keeps : Bool) (mode : OpenMode) (names : List Text) :
    Except AccessError World :=
  let file := w.add (opened mode (.file names))
  match w.disk.entry? names with
  | some .directory =>
    if mode = .read then .ok (w.add (opened mode (.directory names))) else .error .isADirectory
  | some (.file _) =>
    if mode = .write ∧ keeps then .error .alreadyThere
    else if mode = .write ∨ mode = .overwrite then
      .ok { file with disk := w.disk.put names (.file []) }
    else .ok file
  | none =>
    if mode = .read then .error .missing
    else .ok { file with disk := w.disk.put names (.file []) }

/-- Opens an absolute path for a process with the given streams, and gives the number of what is
open. A pipe that a stream leads to is not opened anew, and there is no terminal to open. `keeps`
says whether files are not to be overwritten. -/
def openPath (w : World) (s : Streams) (keeps : Bool) (mode : OpenMode) (path : Text) :
    Except AccessError (Nat × World) :=
  let index := w.openings.size
  match device? path, streamAt? path with
  | some .terminal, _ => .error .noDevice
  | some channel, _ => .ok (index, w.add (opened mode channel))
  | none, some stream =>
    match w.opening? s stream with
    | none => .error .missing
    | some o =>
      match o.channel with
      | .pipe _ => .ok ((s.lookup stream).getD index, w)
      | .file names => (w.openFile keeps mode names).map (index, ·)
      | .directory names => (w.openFile keeps mode names).map (index, ·)
      | channel => .ok (index, w.add (opened mode channel))
  | none, none => do
    let names ← match w.disk.locate path with
      | .ok names => pure names
      | .error e => if mode = .read then throw e else w.disk.destination? path
    (w.openFile keeps mode names).map (index, ·)

end World

end NotePress
