import NotePress.Document.Id

/-!
# Paths a reference may mean

A reference is joined onto the directory of the note it stands in, and onto the root. Joining folds
the segments `.` and `..`; a path that would leave the root, or that ends at it, names nothing.
-/

namespace NotePress

/-- Adds one segment to a folded path, innermost segment first. -/
def foldSegment (segments : List Text) (segment : Text) : Option (List Text) :=
  if segment = [] ∨ segment = ['.'] then some segments
  else if segment = ['.', '.'] then
    match segments with
    | [] => none
    | _ :: outer => some outer
  else some (segment :: segments)

/-- Folds segments onto a path, innermost segment first; none if they step above the root. -/
def foldSegments (segments : List Text) : List Text → Option (List Text)
  | [] => some segments
  | s :: rest => (foldSegment segments s).bind fun segments => foldSegments segments rest

/-- Joins a reference onto a directory; a reference that opens with a slash starts at the root. -/
def joinReference? (directory reference : Text) : Option Text :=
  let leading := if reference.head? = some '/' then [] else directory
  match foldSegments [] (leading.splitOn '/' ++ reference.splitOn '/') with
  | some (s :: outer) => some (Text.join ['/'] (s :: outer).reverse)
  | _ => none

/-- The directories a reference is tried in: that of the linking note first, then the root. -/
def linkDirectories (reference : Text) (base : DocumentId) : List Text :=
  if reference.head? = some '/' ∨ base.directory = [] then [[]] else [base.directory, []]

/-- The ending that a reference may leave out. -/
def noteEnding : Text := ".md".toList

/-- The ids that a reference in `base` may mean, in the order they are tried: in each directory the
plain path and the path with the ending of notes. -/
def idsFor (reference : Text) (base : DocumentId) : List DocumentId :=
  let reference := forwardSlashes reference.trim
  if reference = [] then []
  else
    ((linkDirectories reference base).filterMap (joinReference? · reference)).flatMap
      (fun path => [DocumentId.ofPath path, DocumentId.ofPath (path ++ noteEnding)]) |>.eraseDups

end NotePress
