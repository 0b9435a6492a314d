import NotePress.Yaml.Cursor
import NotePress.Yaml.Resolution
import NotePress.Number.Layout
import NotePress.Text.Utf8

/-!
# Writing YAML

Maps and lists are in block style, an entry a line; a list is not indented further than the map it
stands in, and empty ones are written as `[]` and `{}`. A text is plain if it reads back as that
text, else in single quotes; a text with line feeds is a literal block, and one with characters that
cannot be shown is in double quotes. A key that is long or has line breaks is written behind `?`.
Lines are never folded.
-/

namespace NotePress.Yaml

/-- A character that is shown as it is. -/
def isShown (c : Char) : Bool :=
  let n := c.toNat
  n = 0xA || (0x20 ≤ n && n ≤ 0x7E) || (0xA0 ≤ n && n ≠ 0xFEFF && n ≠ 0xFFFE && n ≠ 0xFFFF)

/-- A blank, a break, or the end, behind a character. -/
def gapNext : Text → Bool
  | [] => true
  | c :: _ => isSpaceTab c || isBreak c

/-- Whether the first character keeps a text from being plain. -/
def marksFirst (c : Char) (rest : Text) : Bool :=
  "#,[]\x7b\x7d&*!|>'\"%@\x60".toList.contains c || ("?:-".toList.contains c && gapNext rest)

/-- Whether a later character keeps a text from being plain; `gapBefore` says whether a gap stands
in front of it. -/
def marksLater : (gapBefore : Bool) → Text → Bool
  | _, [] => false
  | gapBefore, c :: rest =>
    (c = ':' && gapNext rest) || (c = '#' && gapBefore) ||
      marksLater (isSpaceTab c || isBreak c) rest

/-- Whether a text has marks that mean something else in a block. -/
def hasMarks (t : Text) : Bool :=
  Text.startsWith t ['-', '-', '-'] || Text.startsWith t ['.', '.', '.'] ||
    match t with
    | [] => false
    | c :: rest => marksFirst c rest || marksLater (isSpaceTab c || isBreak c) rest

/-- Whether some character of a text is followed by another of the given kinds. -/
def hasPair (first second : Char → Bool) : Text → Bool
  | a :: b :: rest => first a && second b || hasPair first second (b :: rest)
  | _ => false

/-- How a text is written. -/
inductive ScalarStyle where
  | plain
  | singleQuoted
  | doubleQuoted
  | literal
  deriving DecidableEq, Repr

/-- Whether a text may stand without quotes. -/
def plainAllowed (t : Text) : Bool :=
  !(t.head?.any fun c => c = ' ') && !(t.getLast?.any fun c => c = ' ') && !t.any isBreak &&
    t.all isShown && !hasMarks t

/-- Whether a text may stand in single quotes. -/
def singleQuotesAllowed (t : Text) : Bool :=
  t.all isShown && !hasPair isBreak (· = ' ') t && !hasPair (· = ' ') isBreak t

/-- Whether a text may be a literal block. -/
def literalAllowed (t : Text) : Bool :=
  t.all isShown && !(t.getLast?.any fun c => c = ' ') && !hasPair (· = ' ') isBreak t

/-- The style of a text; a key of one line is never a block. -/
def styleOf (isKey : Bool) (t : Text) : ScalarStyle :=
  let quoted := if singleQuotesAllowed t then .singleQuoted else .doubleQuoted
  if t.contains '\n' then
    if t ≠ [] && literalAllowed t && !isKey then .literal else .doubleQuoted
  else if isKey && t.any isBreak then .doubleQuoted
  else if readsAsText t && plainAllowed t then .plain
  else quoted

/-- A hexadecimal digit in upper case. -/
def upperHexDigit (n : Nat) : Char := (Nat.digitChar (n % 16)).toUpper

/-- The last so many hexadecimal digits of a number. -/
def upperHex : (digits : Nat) → Nat → Text
  | 0, _ => []
  | k + 1, n => upperHex k (n / 16) ++ [upperHexDigit n]

/-- A character inside double quotes. -/
def escapeChar (c : Char) : Text :=
  let n := c.toNat
  if isShown c && !isBreak c && c ≠ '"' && c ≠ '\\' then [c]
  else if c = '\x00' then ['\\', '0']
  else if c = '\x07' then ['\\', 'a']
  else if c = '\x08' then ['\\', 'b']
  else if c = '\t' then ['\\', 't']
  else if c = '\n' then ['\\', 'n']
  else if c = '\x0b' then ['\\', 'v']
  else if c = '\x0c' then ['\\', 'f']
  else if c = '\r' then ['\\', 'r']
  else if c = '\x1b' then ['\\', 'e']
  else if c = '"' then ['\\', '"']
  else if c = '\\' then ['\\', '\\']
  else if c = '\u0085' then ['\\', 'N']
  else if c = '\u2028' then ['\\', 'L']
  else if c = '\u2029' then ['\\', 'P']
  else if n ≤ 0xFF then ['\\', 'x'] ++ upperHex 2 n
  else if n ≤ 0xFFFF then ['\\', 'u'] ++ upperHex 4 n
  else ['\\', 'U'] ++ upperHex 8 n

/-- A text in double quotes. -/
def writeDoubleQuoted (t : Text) : Text := '"' :: t.flatMap escapeChar ++ ['"']

/-- The inside of single quotes; behind a break the line is indented. -/
def singleQuotedBody (indent : Nat) : (broken : Bool) → Text → Text
  | broken, [] => if broken then List.replicate indent ' ' else []
  | broken, c :: rest =>
    if isBreak c then c :: singleQuotedBody indent true rest
    else
      (if broken then List.replicate indent ' ' else []) ++
        (if c = '\'' then ['\'', '\''] else [c]) ++ singleQuotedBody indent false rest

/-- A text in single quotes. -/
def writeSingleQuoted (indent : Nat) (t : Text) : Text :=
  '\'' :: singleQuotedBody indent false t ++ ['\'']

/-- The lines of a literal block; every line that is not empty is indented. -/
def literalBody (indent : Nat) : (broken : Bool) → Text → Text
  | _, [] => []
  | broken, c :: rest =>
    if isBreak c then c :: literalBody indent true rest
    else
      (if broken then List.replicate indent ' ' else []) ++ c :: literalBody indent false rest

/-- The marks behind `|`: an indentation if the text opens with a space or break, and what happens
to the breaks at its end. -/
def literalMarks (t : Text) : Text :=
  (if t.head?.any fun c => c = ' ' || isBreak c then ['2'] else []) ++
    match t.reverse with
    | [] => ['-']
    | c :: before =>
      if !isBreak c then ['-']
      else match before with
        | [] => ['+']
        | d :: _ => if isBreak d then ['+'] else []

/-- A text as a literal block whose lines are indented to a column. -/
def writeLiteral (indent : Nat) (t : Text) : Text :=
  '|' :: literalMarks t ++ '\n' :: literalBody indent true t

/-- A text, at most over lines that are indented to a column. -/
def writeText (isKey : Bool) (indent : Nat) (t : Text) : Text :=
  match styleOf isKey t with
  | .plain => t
  | .singleQuoted => writeSingleQuoted indent t
  | .doubleQuoted => writeDoubleQuoted t
  | .literal => writeLiteral indent t

/-- A value that is no list and no map. -/
def writeScalar (isKey : Bool) (indent : Nat) : Data → Text
  | .null => "null".toList
  | .bool b => (if b then "true" else "false").toList
  | .int n => if n < 0 then '-' :: Text.ofNat n.natAbs else Text.ofNat n.natAbs
  | .float f x => NumberLayout.yaml.write f x
  | .text t => writeText isKey indent t
  | _ => []

/-- The longest key, in bytes, that stands on one line with its value. -/
def keyLimit : Nat := 128

/-- Whether a key stands on one line with its value. -/
def isSimpleKey : Data → Bool
  | .text t => !t.any isBreak && Text.byteLength t ≤ keyLimit
  | .list _ => false
  | .map _ => false
  | .tagged _ _ => false
  | _ => true

/-- Ends a line, unless what was written ends with a break. -/
def endLine (t : Text) : Text := if t.getLast?.any isBreak then t else t ++ ['\n']

/-- What a scalar is behind a mark: a space and the scalar. -/
def besideMark (t : Text) : Text := if t = [] then [] else ' ' :: t

mutual
/-- The lines of a map's entries, all of them indented to a column. -/
def writeEntries (indent : Nat) : List (Data × Data) → Text
  | [] => []
  | (k, v) :: rest =>
    let pad := List.replicate indent ' '
    let entry :=
      if isSimpleKey k then pad ++ writeScalar true indent k ++ ':' :: writeValue indent v
      else
        pad ++ '?' :: endLine (besideMark (writeScalar false (indent + 2) k)) ++
          pad ++ ':' :: writeNested indent v
    entry ++ writeEntries indent rest

/-- What stands behind the colon of a key on the same line, up to the end of the value's lines. -/
def writeValue (indent : Nat) : Data → Text
  | .list [] => [' ', '[', ']', '\n']
  | .map [] => [' ', '\x7b', '\x7d', '\n']
  | .list items => '\n' :: writeItems indent items
  | .map entries => '\n' :: writeEntries (indent + 2) entries
  | .tagged _ d => writeValue indent d
  | d => endLine (besideMark (writeScalar false (indent + 2) d))

/-- What stands behind a mark whose value may go on on the same line. -/
def writeNested (indent : Nat) : Data → Text
  | .list [] => [' ', '[', ']', '\n']
  | .map [] => [' ', '\x7b', '\x7d', '\n']
  | .list items => ' ' :: (writeItems (indent + 2) items).drop (indent + 2)
  | .map entries => ' ' :: (writeEntries (indent + 2) entries).drop (indent + 2)
  | .tagged _ d => writeNested indent d
  | d => endLine (besideMark (writeScalar false (indent + 2) d))

/-- The lines of a list's items, all of them indented to a column. -/
def writeItems (indent : Nat) : List Data → Text
  | [] => []
  | d :: rest => List.replicate indent ' ' ++ '-' :: writeNested indent d ++ writeItems indent rest
end

/-- A text that holds one value. -/
def write (d : Data) : Text :=
  match d with
  | .list (i :: is) => writeItems 0 (i :: is)
  | .map (e :: es) => writeEntries 0 (e :: es)
  | _ => (writeNested 0 d).tail

end NotePress.Yaml
