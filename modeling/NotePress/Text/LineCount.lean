import NotePress.Text.Blank

/-!
# Counting lines

Compilers count a line for every line feed, carriage return, or pair of both, and one more for a
last line that is not ended.
-/

namespace NotePress.Text

/-- The number of lines of a text; an empty text has none. -/
def lineCount : Text → Nat
  | [] => 0
  | '\r' :: '\n' :: rest => lineCount rest + 1
  | '\r' :: rest => lineCount rest + 1
  | '\n' :: rest => lineCount rest + 1
  | [_] => 1
  | _ :: c :: rest => lineCount (c :: rest)

@[simp] theorem lineCount_nil : lineCount [] = 0 := by simp [lineCount]

end NotePress.Text
