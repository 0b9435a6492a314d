import NotePress.Data.Basic
import NotePress.Number.Layout

/-!
# Writing JSON

Compact JSON has no blanks; pretty JSON has an entry a line, indented by two spaces, and writes
empty lists and objects on one line. Control characters are escaped, other characters are not.
-/

namespace NotePress.Json

/-- A hexadecimal digit in lower case. -/
def hexDigit (n : Nat) : Char := Nat.digitChar (n % 16)

/-- The escape of a character inside a string. -/
def escapeChar (c : Char) : Text :=
  if c = '"' then ['\\', '"']
  else if c = '\\' then ['\\', '\\']
  else if c = '\x08' then ['\\', 'b']
  else if c = '\x0c' then ['\\', 'f']
  else if c = '\n' then ['\\', 'n']
  else if c = '\r' then ['\\', 'r']
  else if c = '\t' then ['\\', 't']
  else if c.toNat < 0x20 then ['\\', 'u', '0', '0', hexDigit (c.toNat / 16), hexDigit c.toNat]
  else [c]

/-- A string in quotes. -/
def writeText (t : Text) : Text := '"' :: t.flatMap escapeChar ++ ['"']

/-- A value that is no list and no map. -/
def writeScalar : Data → Text
  | .null => "null".toList
  | .bool b => (if b then "true" else "false").toList
  | .int n => Text.ofInt n
  | .float f x => NumberLayout.json.write f x
  | .text t => writeText t
  | _ => []

mutual
/-- A value without blanks. -/
def write : Data → Text
  | .list items => '[' :: writeItems items ++ [']']
  | .map entries => '\x7b' :: writeEntries entries ++ ['\x7d']
  | .tagged _ inner => write inner
  | d => writeScalar d

def writeItems : List Data → Text
  | [] => []
  | [d] => write d
  | d :: rest => write d ++ ',' :: writeItems rest

def writeEntries : List (Data × Data) → Text
  | [] => []
  | [(k, v)] => write k ++ ':' :: write v
  | (k, v) :: rest => write k ++ ':' :: write v ++ ',' :: writeEntries rest
end

/-- A line break with an indentation. -/
def breakTo (indent : Nat) : Text := '\n' :: List.replicate indent ' '

mutual
/-- A value over several lines; `indent` is that of the line it starts in. -/
def writePretty (indent : Nat) : Data → Text
  | .list [] => ['[', ']']
  | .list items => '[' :: prettyItems (indent + 2) items ++ breakTo indent ++ [']']
  | .map [] => ['\x7b', '\x7d']
  | .map entries => '\x7b' :: prettyEntries (indent + 2) entries ++ breakTo indent ++ ['\x7d']
  | .tagged _ inner => writePretty indent inner
  | d => writeScalar d

def prettyItems (indent : Nat) : List Data → Text
  | [] => []
  | [d] => breakTo indent ++ writePretty indent d
  | d :: rest => breakTo indent ++ writePretty indent d ++ ',' :: prettyItems indent rest

def prettyEntries (indent : Nat) : List (Data × Data) → Text
  | [] => []
  | [(k, v)] => breakTo indent ++ write k ++ ':' :: ' ' :: writePretty indent v
  | (k, v) :: rest =>
    breakTo indent ++ write k ++ ':' :: ' ' :: writePretty indent v ++
      ',' :: prettyEntries indent rest
end

end NotePress.Json
