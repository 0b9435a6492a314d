import NotePress.Text.Basic

/-!
# Paths in a file system

A path is text; slashes separate its pieces, and it is absolute if it opens with one. A piece names
something unless it is empty or a `.` that does not open the path. The named pieces are the path's
components.
-/

namespace NotePress.Path

/-- Whether a path starts at the root of the file system. -/
def isAbsolute (path : Text) : Bool := path.head? = some '/'

/-- A path seen from a directory; an absolute path stays as it is. -/
def join (directory path : Text) : Text :=
  if isAbsolute path then path
  else if directory = [] ∨ directory.getLast? = some '/' then directory ++ path
  else directory ++ '/' :: path

/-- The pieces of a path, each with whether it names something. -/
def pieces (path : Text) : List (Text × Bool) :=
  match path.splitOn '/' with
  | [] => []
  | first :: rest => (first, first ≠ []) :: rest.map fun p => (p, p ≠ [] ∧ p ≠ ['.'])

/-- The named pieces. -/
def components (path : Text) : List Text := ((pieces path).filter (·.2)).map (·.1)

/-- The pieces up to the last component, the last one first. -/
def reversedToLast (path : Text) : List (Text × Bool) :=
  (pieces path).reverse.dropWhile fun p => !p.2

/-- The name of what a path points at; none if it ends in `..`, is `.`, or names nothing. -/
def lastName? (path : Text) : Option Text :=
  match (components path).getLast? with
  | some name => if name = ['.', '.'] ∨ name = ['.'] then none else some name
  | none => none

/-- The directory that holds what the path points at; none for the root and for the empty path. -/
def parent? (path : Text) : Option Text :=
  match reversedToLast path with
  | [] => none
  | _ :: before =>
    match before.dropWhile fun p => !p.2 with
    | [] => some (if isAbsolute path then ['/'] else [])
    | kept => some (Text.join ['/'] (kept.reverse.map (·.1)))

/-- A file name's stem and what follows its last dot; a dot in front starts no extension. -/
def splitName (name : Text) : Text × Option Text :=
  match name.cutAtLast? '.' with
  | some (c :: cs, ext) => (c :: cs, some ext)
  | _ => (name, none)

/-- The extension of the file name, which may be empty. -/
def extension? (path : Text) : Option Text := (lastName? path).bind fun name => (splitName name).2

/-- The path with its extension exchanged; a path without a file name stays as it is. The old
extension goes first, and where that leaves `..` there is no file name any more. -/
def withExtension (path ext : Text) : Text :=
  match lastName? path, reversedToLast path with
  | some name, _ :: before =>
    let stem := (splitName name).1
    let last := if stem = ['.'] ∧ Text.endsWith path name then ['.', '.'] else stem ++ '.' :: ext
    Text.join ['/'] ((before.reverse.map (·.1)) ++ [last])
  | _, _ => path

/-- The absolute path of a list of names. -/
def ofNames (names : List Text) : Text := '/' :: Text.join ['/'] names

end NotePress.Path
