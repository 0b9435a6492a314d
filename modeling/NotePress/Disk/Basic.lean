import NotePress.Collection.Basic
import NotePress.Disk.Path
import NotePress.Text.Utf8

/-!
# File systems

A disk is a list of absolute paths, each a list of names from the root, with what stands there; the
root is always a directory. Paths are walked name by name: `.` and empty names stay in a directory,
`..` goes up. A write puts an entry in front, so the latest one counts.
-/

namespace NotePress

/-- What stands at a path. -/
inductive Entry where
  | file (bytes : List UInt8)
  | directory
  deriving DecidableEq, Repr

/-- The files and directories of a file system. -/
structure Disk where
  entries : List (List Text × Entry)
  deriving Repr

namespace Disk

/-- What stands at a list of names; a path with entries below it is a directory. -/
def entry? (d : Disk) (names : List Text) : Option Entry :=
  match names with
  | [] => some .directory
  | _ =>
    match d.entries.lookup names with
    | some e => some e
    | none => if d.entries.any fun e => names.isPrefixOf e.1 then some .directory else none

/-- File names have at most this many bytes. -/
def nameLimit : Nat := 255

/-- Paths have at most this many bytes. -/
def pathLimit : Nat := 4095

/-- What is wrong with a path before it is walked. -/
def pathFault? (path : Text) : Option AccessError :=
  if path = [] then some .missing
  else if path.contains '\x00' then some .invalidName
  else if pathLimit < Text.byteLength path then some .nameTooLong
  else none

/-- Goes one name further. -/
def step (d : Disk) (here : List Text) (name : Text) : Except AccessError (List Text) :=
  match d.entry? here with
  | none => .error .missing
  | some (.file _) => .error .notADirectory
  | some .directory =>
    if name = [] ∨ name = ['.'] then .ok here
    else if name = ['.', '.'] then .ok here.dropLast
    else if nameLimit < Text.byteLength name then .error .nameTooLong
    else if (d.entry? (here ++ [name])).isSome then .ok (here ++ [name])
    else .error .missing

/-- Walks a list of names. -/
def walk (d : Disk) (here : List Text) : List Text → Except AccessError (List Text)
  | [] => .ok here
  | name :: rest => (d.step here name).bind fun here => d.walk here rest

/-- Where an absolute path leads: names without `.` and `..`. -/
def locate (d : Disk) (path : Text) : Except AccessError (List Text) :=
  match pathFault? path with
  | some e => .error e
  | none => d.walk [] (path.splitOn '/')

/-- Whether a path leads to a file. -/
def isFile (d : Disk) (path : Text) : Bool :=
  match d.locate path with
  | .ok names => match d.entry? names with
    | some (.file _) => true
    | _ => false
  | .error _ => false

/-- Whether a path leads to a directory. -/
def isDirectory (d : Disk) (path : Text) : Bool :=
  match d.locate path with
  | .ok names => d.entry? names = some .directory
  | .error _ => false

/-- The bytes of a file. -/
def readBytes (d : Disk) (path : Text) : Except AccessError (List UInt8) :=
  (d.locate path).bind fun names =>
    match d.entry? names with
    | some (.file bytes) => .ok bytes
    | some .directory => .error .isADirectory
    | none => .error .missing

/-- The text of a file. -/
def readText (d : Disk) (path : Text) : Except AccessError Text :=
  (d.readBytes path).bind fun bytes =>
    match Text.decode? bytes with
    | some t => .ok t
    | none => .error .notText

/-- Where a file of an absolute path goes, given that its directory exists; a path that ends with a
slash, or in `.` or `..`, asks for a directory. -/
def destination? (d : Disk) (path : Text) : Except AccessError (List Text) :=
  match pathFault? path with
  | some e => .error e
  | none =>
    let names := (path.splitOn '/').reverse.dropWhile (· = [])
    (d.walk [] names.tail.reverse).bind fun directory =>
      match d.entry? directory with
      | none => .error .missing
      | some (.file _) => .error .notADirectory
      | some .directory =>
        let name := names.head?.getD []
        if path.getLast? = some '/' ∨ name = [] ∨ name = ['.'] ∨ name = ['.', '.'] then
          .error .isADirectory
        else if nameLimit < Text.byteLength name then .error .nameTooLong
        else .ok (directory ++ [name])

/-- Puts an entry in place of what stands at a list of names. -/
def put (d : Disk) (names : List Text) (e : Entry) : Disk :=
  ⟨(names, e) :: d.entries.filter (·.1 ≠ names)⟩

/-- Writes a file in an existing directory. -/
def write (d : Disk) (path : Text) (bytes : List UInt8) : Except AccessError Disk :=
  (d.destination? path).bind fun names =>
    if d.entry? names = some .directory then .error .isADirectory
    else .ok (d.put names (.file bytes))

/-- Makes an empty directory in an existing one, in place of nothing. -/
def makeDirectory (d : Disk) (path : Text) : Except AccessError Disk :=
  (d.destination? path).bind fun names =>
    if (d.entry? names).isSome then .error .alreadyThere else .ok (d.put names .directory)

/-- Removes what stands at a list of names, and all below. -/
def remove (d : Disk) (names : List Text) : Disk :=
  ⟨d.entries.filter fun e => !names.isPrefixOf e.1⟩

/-- Puts an entry at a path given from a directory; directories above it come into being. -/
def place (d : Disk) (directory : List Text) (path : Text) (e : Entry) : Disk :=
  d.put (directory ++ (path.splitOn '/').filter fun s => s ≠ [] ∧ s ≠ ['.']) e

/-- The files below a list of names, as the names from there on. -/
def filesBelow (d : Disk) (names : List Text) : List (List Text) :=
  d.entries.filterMap fun e =>
    match e.2 with
    | .file _ => names.isPrefixOf? e.1
    | .directory => none

/-- The names in a directory, each once. -/
def namesIn (d : Disk) (names : List Text) : List Text :=
  (d.entries.filterMap fun e => (names.isPrefixOf? e.1).bind List.head?).eraseDups

/-- The files of a disk that another one does not hold in the same state. -/
def changedFiles (d before : Disk) : List (List Text × List UInt8) :=
  d.entries.filterMap fun e =>
    match e.2 with
    | .file bytes => if before.entry? e.1 = some e.2 then none else some (e.1, bytes)
    | .directory => none

end Disk

end NotePress
