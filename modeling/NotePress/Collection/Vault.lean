import NotePress.Disk.Basic
import NotePress.Document.Order
import NotePress.Link.Path

/-!
# Collections in a directory

The ids of a vault are paths from its directory. Hidden files, and files in hidden directories, are
never listed, though they can be named.
-/

namespace NotePress

/-- A directory whose files are documents. -/
structure Vault where
  disk : Disk
  /-- The directory, as names from the root of the disk. -/
  directory : List Text

namespace Vault

/-- Why a vault cannot be opened. -/
inductive OpenError where
  | unreachable (cause : AccessError)
  | notADirectory (path : Text)
  deriving DecidableEq

/-- The text of an error on opening. -/
def OpenError.message : OpenError → Text
  | .unreachable cause => cause.message
  | .notADirectory path => "not a directory: ".toList ++ path

/-- Opens the vault at an absolute path. -/
def open? (disk : Disk) (path : Text) : Except OpenError Vault :=
  match disk.locate path with
  | .error e => .error (.unreachable e)
  | .ok names =>
    if disk.entry? names = some .directory then .ok ⟨disk, names⟩
    else .error (.notADirectory (Path.ofNames names))

/-- The directory as a path. -/
def root (v : Vault) : Text := Path.ofNames v.directory

/-- The path of a document: its segments joined onto the directory one by one. -/
def locationOf (v : Vault) (id : DocumentId) : Text := (id.path.splitOn '/').foldl Path.join v.root

/-- The id of a file, given as names from the root of the disk, if it is inside. -/
def idOfNames (v : Vault) (names : List Text) : Option DocumentId :=
  match v.directory.isPrefixOf? names with
  | some (n :: rest) => some (DocumentId.ofPath (Text.join ['/'] (n :: rest)))
  | _ => none

/-- The id of what a path leads to, if it is inside; a relative path starts at the directory. -/
def idAt (v : Vault) (path : Text) : Option DocumentId :=
  match v.disk.locate (Path.join v.root path) with
  | .ok names => v.idOfNames names
  | .error _ => none

/-- Whether there is a file of this id; the empty id has none. -/
def contains (v : Vault) (id : DocumentId) : Bool := id.path ≠ [] ∧ v.disk.isFile (v.locationOf id)

/-- The text of a document. -/
def read (v : Vault) (id : DocumentId) : Except AccessError Text :=
  v.disk.readText (v.locationOf id)

/-- A name that starts with a dot. -/
def opensWithDot (name : Text) : Bool := name.head? = some '.'

/-- Where a listing starts; a blank directory asks for all of the vault. -/
def listingStart (v : Vault) (within : Option Text) : Text :=
  match within.bind Text.unlessBlank? with
  | some directory => v.locationOf (DocumentId.ofPath directory)
  | none => v.root

/-- The paths of the files that a listing comes by: each is the start with the names from there on
behind it, and none of these opens with a dot. -/
def listedPaths (v : Vault) (within : Option Text) : List Text :=
  let start := v.listingStart within
  match v.disk.locate start with
  | .error _ => []
  | .ok names =>
    ((v.disk.filesBelow names).filter fun below => !below.any opensWithDot).map
      (·.foldl Path.join start)

/-- The documents below a directory of the vault, in order. -/
def list (v : Vault) (within : Option Text) : List DocumentId :=
  DocumentId.sort ((v.listedPaths within).filterMap v.idAt)

/-- The operations of a collection in a directory. -/
def toCollection (v : Vault) : Collection where
  resolve reference base := (idsFor reference base).find? v.contains
  read := v.read
  list := v.list
  contains := v.contains
  root? := some v.root

end Vault

end NotePress
