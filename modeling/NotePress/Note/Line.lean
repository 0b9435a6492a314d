import NotePress.Text.Scan

/-!
# Lines of a note

A line ends at a line feed; a carriage return right before it belongs to the line break. A text
that ends with a line feed has no further line, and a last line without one keeps its carriage
return.
-/

namespace NotePress

/-- A line without its break, and the position it starts at. -/
structure Line where
  start : Nat
  content : Text
  deriving DecidableEq, Repr

/-- The position after the last character of a line. -/
def Line.stop (l : Line) : Nat := l.start + l.content.length

/-- Drops one carriage return at the end. -/
def dropCarriageReturn (t : Text) : Text :=
  if t.getLast? = some '\r' then t.dropLast else t

/-- The lines of the pieces between line feeds, the first of which starts at `start`. -/
def linesOfPieces (start : Nat) : List Text → List Line
  | [] => []
  | [last] => if last = [] then [] else [⟨start, last⟩]
  | piece :: rest =>
    ⟨start, dropCarriageReturn piece⟩ :: linesOfPieces (start + piece.length + 1) rest

/-- The lines of a text. -/
def Text.lines (t : Text) : List Line := linesOfPieces 0 t.breakLines

end NotePress
