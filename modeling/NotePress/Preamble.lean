import NotePress.Note.Line
import NotePress.Profile.Basic
import NotePress.Text.LineCount

/-!
# Preambles

What is put ahead of a document: the user's header, then new names for captions. Users often paste a
whole YAML block as their header, so its markers, comments and list items are taken away, what is
left is moved to the left margin, and runs of blank lines become one.
-/

namespace NotePress

/-- The text ahead of a document, and the number of lines it adds. -/
structure Preamble where
  text : Text
  lineCount : Nat
  deriving DecidableEq, Repr

namespace Preamble

/-! ### The user's header -/

/-- What may follow the key of a header: nothing, or the mark of a block of text. -/
def blockMarks : List Text := ["", "|", "|-", "|+", ">", ">-", ">+"].map String.toList

/-- Whether a trimmed line is the key that headers stand under. -/
def isHeaderName (t : Text) : Bool :=
  match Text.dropOpening? "header-includes:".toList t with
  | some rest => blockMarks.contains rest.trim
  | none => false

/-- Whether a line is a comment, a document marker or the header's key. -/
def isScaffolding (line : Text) : Bool :=
  let t := line.trim
  t.head? = some '#' || t.head? = some '%' || t = "---".toList || t = "...".toList || isHeaderName t

/-- The blanks that a line starts with. -/
def indentation (line : Text) : Text := line.takeWhile isBlank

/-- Takes the mark of a list item from a line and keeps its indentation. -/
def dropItemMark (line : Text) : Text :=
  match line.trimStart with
  | ['-'] => []
  | '-' :: ' ' :: item => indentation line ++ item
  | _ => line

/-- The longest text that both texts start with. -/
def sharedStart : Text → Text → Text
  | a :: as, b :: bs => if a = b then a :: sharedStart as bs else []
  | _, _ => []

/-- The longest indentation that all lines share, blank lines left out. -/
def sharedIndentation (lines : List Text) : Text :=
  match (lines.filter fun l => !l.allBlank).map indentation with
  | [] => []
  | first :: rest => rest.foldl sharedStart first

/-- Takes an indentation from a line, and the blanks at its end; a blank line becomes empty. -/
def dedentLine (indent line : Text) : Text :=
  if line.allBlank then [] else ((Text.dropOpening? indent line).getD line).trimEnd

/-- Moves lines to the left margin. -/
def dedent (lines : List Text) : List Text := lines.map (dedentLine (sharedIndentation lines))

/-- The lines of a user's header without what is not TeX. -/
def headerLines (header : Text) : List Text :=
  dedent <|
    ((header.lines.map (·.content)).filter fun l => !isScaffolding l).map dropItemMark

/-! ### Caption names -/

/-- Gives a caption name; a blank one is left as the document class has it. -/
def renameLine (command : String) (title : Text) : Option Text :=
  title.unlessBlank?.map fun title =>
    "\\renewcommand\x7b\\".toList ++ command.toList ++ "\x7d\x7b".toList ++ title ++ "\x7d".toList

/-- Gives equations a name; no document class has one to replace, so it is made first. -/
def equationLine (title : Text) : Option Text :=
  title.unlessBlank?.map fun title =>
    "\\providecommand\x7b\\equationname\x7d\x7b\x7d".toList ++
      "\\renewcommand\x7b\\equationname\x7d\x7b".toList ++ title ++ "\x7d".toList

/-- The lines that give caption names. -/
def labelLines (labels : Labels) : List Text :=
  [renameLine "figurename" labels.figureTitle, renameLine "tablename" labels.tableTitle,
    renameLine "lstlistingname" labels.listingTitle, equationLine labels.equationTitle].filterMap id

/-! ### Putting them together -/

/-- Keeps the first of adjacent blank lines, written empty; none at the start. -/
def collapse : (afterBlank : Bool) → List Text → List Text
  | _, [] => []
  | afterBlank, line :: rest =>
    if !line.allBlank then line :: collapse false rest
    else if afterBlank then collapse true rest
    else [] :: collapse true rest

/-- Drops an empty last line. -/
def dropEmptyEnd (lines : List Text) : List Text :=
  if lines.getLast? = some [] then lines.dropLast else lines

/-- The preamble of a header and labels. -/
def compose (header : Text) (labels : Labels) : Preamble :=
  let lines := dropEmptyEnd (collapse true (headerLines header ++ labelLines labels))
  let text := lines.flatMap fun l => l ++ ['\n']
  ⟨text, Text.lineCount text⟩

end Preamble

end NotePress
