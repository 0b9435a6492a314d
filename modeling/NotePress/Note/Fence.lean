import NotePress.Note.Line

/-!
# Code fences

A fence opens on a line of at least three backticks or tildes, behind blanks and quote marks, and
closes on the first later line with the same quote depth, the same character, at least as many of
them and nothing behind them. A fence that never closes is no fence. A backtick fence carries no
backtick in its info string.
-/

namespace NotePress

/-- A character of the prefix that quotes and indents a line. -/
def isQuoteChar (c : Char) : Bool := isSpaceTab c || c = '>'

/-- The parts of a line that can open or close a fence. -/
structure FenceLine where
  /-- Blanks and quote marks in front. -/
  quote : Text
  /-- The run of backticks or tildes. -/
  marker : Text
  /-- The rest of the line. -/
  tail : Text
  deriving DecidableEq, Repr

/-- The number of quote marks in a prefix. -/
def quoteMarks (quote : Text) : Nat := quote.count '>'

/-- Reads a line as a fence line. -/
def FenceLine.read? (line : Text) : Option FenceLine :=
  let rest := line.dropWhile isQuoteChar
  match rest with
  | [] => none
  | c :: _ =>
    let marker := rest.takeWhile (· = c)
    if (c = '\x60' ∨ c = '~') ∧ 3 ≤ marker.length then
      some ⟨line.takeWhile isQuoteChar, marker, rest.dropWhile (· = c)⟩
    else none

/-- The info string: the rest of the line, trimmed. -/
def FenceLine.info (f : FenceLine) : Text := f.tail.trim

/-- Whether a fence line may open a fence. -/
def FenceLine.opens (f : FenceLine) : Bool :=
  !(f.marker.head? = some '\x60' && f.info.contains '\x60')

/-- Whether a fence line closes a fence opened by another. -/
def FenceLine.closes (opening closing : FenceLine) : Bool :=
  quoteMarks closing.quote = quoteMarks opening.quote && closing.info.isEmpty &&
    opening.marker.length ≤ closing.marker.length && closing.marker.head? = opening.marker.head?

/-- Whether a line closes a fence opened by the given fence line. -/
def FenceLine.closedBy (opening : FenceLine) (line : Line) : Bool :=
  match FenceLine.read? line.content with
  | some closing => opening.closes closing
  | none => false

/-- A closed code fence. -/
structure Fence where
  /-- From the start of the opening line to the end of the closing line. -/
  span : Span
  /-- Prefix of the opening line. -/
  quote : Text
  /-- Run of backticks or tildes that opens it. -/
  marker : Text
  /-- Info string. -/
  info : Text
  /-- The lines in between, verbatim. -/
  body : Text
  deriving DecidableEq, Repr

/-- The text from the first to the last of some lines, their inner breaks included. -/
def Text.cover (t : Text) (lines : List Line) : Text :=
  match lines.head?, lines.getLast? with
  | some first, some last => t.slice first.start last.stop
  | _, _ => []

/-- The fences of the rest of the lines of `t`, of which the next `skip` belong to the last
fence. -/
def fencesFrom (t : Text) : Nat → List Line → List Fence
  | _, [] => []
  | skip + 1, _ :: rest => fencesFrom t skip rest
  | 0, line :: rest =>
    match (FenceLine.read? line.content).filter (·.opens) with
    | none => fencesFrom t 0 rest
    | some opening =>
      match rest.findIdx? opening.closedBy with
      | none => fencesFrom t 0 rest
      | some j =>
        let stop := ((rest[j]?).map (·.stop)).getD line.stop
        ⟨⟨line.start, stop⟩, opening.quote, opening.marker, opening.info,
          t.cover (rest.take j)⟩ :: fencesFrom t (j + 1) rest

/-- All closed fences of a text, in order. -/
def Text.fences (t : Text) : List Fence := fencesFrom t 0 t.lines

/-- Whether a position lies in one of the fences. -/
def isFenced (fences : List Fence) (p : Nat) : Bool := fences.any (·.span.contains p)

end NotePress
