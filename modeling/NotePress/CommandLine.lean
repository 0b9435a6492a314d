import NotePress.Text.Basic

/-!
# Command lines

A command line is a command and its arguments in one text. `render` quotes the words that a shell
would take apart, `words` reads them back: blanks part words, quotes group, and a backslash outside
single quotes makes the next character plain.
-/

namespace NotePress

/-- A command with its arguments. -/
structure Invocation where
  command : Text
  arguments : List Text
  deriving DecidableEq, Repr

namespace CommandLine

/-! ### Writing -/

/-- Whether a character means itself to every shell. -/
def isPlain (c : Char) : Bool := c.isAlphanum || c ∈ "-_./=:,+%@".toList

/-- A word in single quotes; a single quote is put outside them. -/
def quoted (t : Text) : Text := '\'' :: Text.replace ['\''] ['\'', '\\', '\'', '\''] t ++ ['\'']

/-- A word, in quotes if it is empty or has a character that is not plain. -/
def quote (t : Text) : Text := if t ≠ [] ∧ t.all isPlain then t else quoted t

/-- The command line of a command and arguments. -/
def render (i : Invocation) : Text := Text.join [' '] ((i.command :: i.arguments).map quote)

/-! ### Reading -/

/-- Which quotes are open. -/
inductive Quoting where
  | none
  | single
  | double
  deriving DecidableEq, Repr

/-- A word with one more character; `none` is no word yet. -/
def push (word : Option Text) (c : Char) : Option Text := some (word.getD [] ++ [c])

/-- The words of a text that goes on after `word` within some quotes. -/
def wordsFrom : Quoting → Option Text → Text → List Text
  | _, word, [] => word.toList
  | .single, word, c :: cs =>
    if c = '\'' then wordsFrom .none word cs else wordsFrom .single (push word c) cs
  | _, word, ['\\'] => [word.getD []]
  | quoting, word, '\\' :: c :: cs => wordsFrom quoting (push word c) cs
  | .double, word, c :: cs =>
    if c = '"' then wordsFrom .none word cs else wordsFrom .double (push word c) cs
  | .none, word, c :: cs =>
    if c = '"' then wordsFrom .double (some (word.getD [])) cs
    else if c = '\'' then wordsFrom .single (some (word.getD [])) cs
    else if isBlank c then word.toList ++ wordsFrom .none none cs
    else wordsFrom .none (push word c) cs

/-- The words of a command line. -/
def words (t : Text) : List Text := wordsFrom .none none t

/-- The command and the arguments of a command line; a blank one has no command. -/
def parse? (t : Text) : Option Invocation :=
  match words t with
  | [] => none
  | command :: arguments => some ⟨command, arguments⟩

end CommandLine

end NotePress
