import NotePress.Text.Digit
import NotePress.Text.Utf8

/-!
# Places in a YAML text

A cursor holds the text that is left, and how many bytes, line breaks and characters since the last
break lie behind. Line breaks are the carriage return, the line feed, both together, and the
breaks `U+0085`, `U+2028` and `U+2029`.
-/

namespace NotePress.Yaml

/-- A character that breaks lines. -/
def isBreak (c : Char) : Bool :=
  c = '\r' || c = '\n' || c = '\u0085' || c = '\u2028' || c = '\u2029'

/-- A blank, a break, or the end of the text. -/
def isGapOrEnd : Option Char → Bool
  | none => true
  | some c => isSpaceTab c || isBreak c

/-- A break or the end of the text. -/
def isBreakOrEnd : Option Char → Bool
  | none => true
  | some c => isBreak c

/-- A blank that is there. -/
def isGapAt : Option Char → Bool
  | none => false
  | some c => isSpaceTab c

/-- A break that is there. -/
def isBreakAt : Option Char → Bool
  | none => false
  | some c => isBreak c

/-- A character of a name. -/
def isNameChar (c : Char) : Bool := c.isAlphanum || c = '_' || c = '-'

/-- A character that a text may hold. -/
def isAllowed (c : Char) : Bool :=
  let n := c.toNat
  n = 0x9 || n = 0xA || n = 0xD || (0x20 ≤ n && n ≤ 0x7E) || n = 0x85 ||
    (0xA0 ≤ n && n ≤ 0xD7FF) || (0xE000 ≤ n && n ≤ 0xFFFD) || 0x10000 ≤ n

/-- A place in a text. -/
structure Cursor where
  rest : Text
  /-- The number of bytes behind. -/
  index : Nat
  line : Nat
  column : Nat
  deriving Repr

namespace Cursor

/-- The beginning of a text. -/
def ofText (t : Text) : Cursor := ⟨t, 0, 0, 0⟩

/-- The next character. -/
def peek (c : Cursor) : Option Char := c.rest.head?

/-- The character that is so many places ahead. -/
def ahead (c : Cursor) (n : Nat) : Option Char := c.rest[n]?

/-- Whether the next character is the given one. -/
def sees (c : Cursor) (x : Char) : Bool := c.peek = some x

/-- Goes on by one character. -/
def skip (c : Cursor) : Cursor :=
  match c.rest with
  | [] => c
  | x :: rest => ⟨rest, c.index + x.utf8Size, c.line, c.column + 1⟩

/-- Goes on by so many characters of a line. -/
def skips (c : Cursor) (n : Nat) : Cursor :=
  ⟨c.rest.drop n, c.index + Text.byteLength (c.rest.take n), c.line, c.column + n⟩

/-- Goes past the characters of a line that satisfy `p`, and gives them. -/
def takeWhile (c : Cursor) (p : Char → Bool) : Text × Cursor :=
  let taken := c.rest.takeWhile p
  (taken, c.skips taken.length)

/-- Goes past the characters of a line that satisfy `p`. -/
def dropWhile (c : Cursor) (p : Char → Bool) : Cursor := (c.takeWhile p).2

/-- Goes past a line break, and gives what it stands for in a value: a line feed, or the break
itself for `U+2028` and `U+2029`. -/
def takeBreak (c : Cursor) : Text × Cursor :=
  match c.rest with
  | '\r' :: '\n' :: rest => (['\n'], ⟨rest, c.index + 2, c.line + 1, 0⟩)
  | x :: rest =>
    if x = '\u2028' ∨ x = '\u2029' then ([x], ⟨rest, c.index + x.utf8Size, c.line + 1, 0⟩)
    else if isBreak x then (['\n'], ⟨rest, c.index + x.utf8Size, c.line + 1, 0⟩)
    else ([], c)
  | [] => ([], c)

/-- Whether the next characters are three of the same kind and a gap, at the start of a line. -/
def seesTriple (c : Cursor) (x : Char) : Bool :=
  c.column = 0 && c.peek = some x && c.ahead 1 = some x && c.ahead 2 = some x &&
    isGapOrEnd (c.ahead 3)

/-- Whether a mark that starts or ends a document comes next. -/
def seesDocumentMark (c : Cursor) : Bool := c.seesTriple '-' || c.seesTriple '.'

end Cursor

end NotePress.Yaml
