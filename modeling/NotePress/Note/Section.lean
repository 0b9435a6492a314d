import NotePress.Note.Fence
import NotePress.Text.Case

/-!
# Parts of a note

The body behind the front matter, the section under a heading, and the line that carries a block
id. Headings and block ids in code fences do not count.
-/

namespace NotePress

/-- Whether a line ends the front matter. -/
def endsFrontMatter (line : Line) : Bool :=
  let content := line.content.trimEnd
  content = ['-', '-', '-'] || content = ['.', '.', '.']

/-- Drops one line break, if the text opens with one. -/
def dropBreak : Text → Text
  | '\r' :: '\n' :: rest => rest
  | '\n' :: rest => rest
  | t => t

/-- What follows an opening line `---`. -/
def afterFrontMatterOpening? : Text → Option Text
  | '-' :: '-' :: '-' :: '\n' :: rest => some rest
  | '-' :: '-' :: '-' :: '\r' :: '\n' :: rest => some rest
  | _ => none

/-- The text behind a closed front matter block; all of the text if there is none. -/
def Text.withoutFrontMatter (t : Text) : Text :=
  match afterFrontMatterOpening? t with
  | none => t
  | some rest =>
    match rest.lines.find? endsFrontMatter with
    | none => t
    | some line => dropBreak (rest.drop line.stop)

/-- A heading: the index of its line, its depth and its title. -/
structure Heading where
  line : Nat
  depth : Nat
  title : Text
  deriving DecidableEq, Repr

/-- The title in the rest of a heading line: trailing blanks go, and before them a closing run of
`#` that has a blank in front. -/
def headingTitle (rest : Text) : Text :=
  let title := Text.dropTail isSpaceTab rest
  let unclosed := Text.dropTail (· = '#') title
  if unclosed ≠ title ∧ (unclosed.getLast?.any isSpaceTab) = true then
    Text.dropTail isSpaceTab unclosed
  else title

/-- Reads a heading line: up to three spaces, one to six `#`, and nothing or blanks and a title. -/
def readHeading? (line : Text) : Option (Nat × Text) :=
  let indent := line.takeWhile (· = ' ')
  let rest := line.dropWhile (· = ' ')
  let marks := rest.takeWhile (· = '#')
  let tail := rest.dropWhile (· = '#')
  if indent.length ≤ 3 ∧ 1 ≤ marks.length ∧ marks.length ≤ 6 then
    match tail with
    | [] => some (marks.length, [])
    | c :: _ =>
      if isSpaceTab c then some (marks.length, headingTitle (tail.dropWhile isSpaceTab)) else none
  else none

/-- The form in which titles are compared: lower case, one space between words. -/
def headingKey (title : Text) : Text := (Text.join [' '] title.words).lower

/-- The lines outside code fences, with their indices. -/
def Text.openLines (t : Text) : List (Line × Nat) :=
  let fences := t.fences
  t.lines.zipIdx.filter fun l => !isFenced fences l.1.start

/-- The headings of a text outside code fences. -/
def Text.headings (t : Text) : List Heading :=
  t.openLines.filterMap fun l =>
    (readHeading? l.1.content).map fun h => ⟨l.2, h.1, h.2⟩

/-- Joins lines after dropping blank lines on both sides. -/
def withoutOuterBlanks (lines : List Line) : Text :=
  let contents := lines.map (·.content)
  Text.unlines ((contents.dropWhile Text.allBlank).reverse.dropWhile Text.allBlank).reverse

/-- The lines under the first heading of that title, up to the next heading of equal or smaller
depth. -/
def Text.sectionUnder? (t : Text) (title : Text) : Option Text :=
  let wanted := headingKey title
  match t.headings.dropWhile (fun h => headingKey h.title ≠ wanted) with
  | [] => none
  | h :: rest =>
    let stop := ((rest.find? fun k => k.depth ≤ h.depth).map (·.line)).getD t.lines.length
    some (withoutOuterBlanks ((t.lines.take stop).drop (h.line + 1)))

/-- What stands before a block marker at the end of a line. -/
def beforeMarker? (marker line : Text) : Option Text :=
  match Text.dropEnding? marker line.trimEnd with
  | none => none
  | some rest =>
    if rest = [] ∨ (rest.getLast?.any isBlank) = true then some rest.trimEnd else none

/-- The first line that carries the block id, with its marker removed. -/
def Text.blockOf? (t : Text) (id : Text) : Option Text :=
  t.openLines.findSome? fun l => beforeMarker? ('^' :: id) l.1.content

/-- What part of a note a reference asks for. -/
inductive Part where
  | whole
  | under (heading : Text)
  | block (id : Text)
  deriving DecidableEq, Repr

/-- The requested part of a note's body; a whole body loses its final line breaks. -/
def Text.part? (body : Text) : Part → Option Text
  | .whole => some body.dropFinalBreaks
  | .under heading => body.sectionUnder? heading
  | .block id => body.blockOf? id

end NotePress
