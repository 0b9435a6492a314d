import NotePress.Process.Stream

/-!
# Shell scripts

The commands of the system's shell: simple commands with quoting and expansion, lists, pipelines,
conditions, loops, functions and redirections. The texts of here-documents are kept beside the
commands, by number, since they stand behind the line that asks for them.
-/

namespace NotePress.Shell

mutual
/-- A part of a word. -/
inductive Piece where
  /-- What stands without quotes. -/
  | text (t : Text)
  /-- What stands in single quotes or behind a backslash. -/
  | literal (t : Text)
  /-- What stands in double quotes. -/
  | double (inner : List Piece)
  | parameter (name : Text) (form : Form)
  /-- What a command writes. -/
  | output (command : Command)
  /-- The value of an arithmetic expression. -/
  | arithmetic (expression : List Piece)

/-- What an expansion takes from a parameter. -/
inductive Form where
  | value
  /-- The number of its octets. -/
  | length
  /-- A word instead, if it is not set; or if it is empty. -/
  | orElse (emptyToo : Bool) (word : List Piece)
  /-- A word instead, which it is also set to. -/
  | assign (emptyToo : Bool) (word : List Piece)
  /-- An error with a message, if it is not set; or if it is empty. -/
  | orFail (emptyToo : Bool) (message : List Piece)
  /-- A word, but only if it is set; and not empty. -/
  | andThen (emptyToo : Bool) (word : List Piece)
  /-- What is left without the shortest or longest beginning, or end, that matches a pattern. -/
  | without (atEnd longest : Bool) (pattern : List Piece)
  /-- A form that there is not; an error where it is expanded. -/
  | malformed

/-- The redirection of a stream. -/
inductive Redirection where
  | file (stream : Nat) (mode : OpenMode) (path : List Piece)
  /-- To where another stream goes; `-` closes it. -/
  | duplicate (stream : Nat) (target : List Piece)
  /-- From the here-document of a number. -/
  | here (stream document : Nat)

/-- A command. -/
inductive Command where
  | nothing
  /-- Assignments, then a program with its arguments, if there are any words. -/
  | simple (line : Nat) (assignments : List (Text × List Piece)) (words : List (List Piece))
      (redirections : List Redirection)
  | redirected (line : Nat) (command : Command) (redirections : List Redirection)
  | sequence (first second : Command)
  /-- The second one only if the first one succeeds. -/
  | both (first second : Command)
  /-- The second one only if the first one fails. -/
  | either (first second : Command)
  | negated (command : Command)
  | pipe (stages : List Command)
  | subshell (line : Nat) (command : Command) (redirections : List Redirection)
  | background (line : Nat) (command : Command)
  | choose (condition yes no : Command)
  /-- Repeats the body as long as the condition succeeds, or as long as it fails. -/
  | loop (until_ : Bool) (condition body : Command)
  /-- Runs the body for every word, or for every argument. -/
  | each (line : Nat) (name : Text) (words : Option (List (List Piece))) (body : Command)
  /-- Runs the first clause that has a pattern that the subject matches. -/
  | cases (line : Nat) (subject : List Piece) (clauses : List (List (List Piece) × Command))
  /-- Gives a name to a command. -/
  | define (name : Text) (body : Command)
end

abbrev Word := List Piece

instance : Inhabited Command := ⟨.nothing⟩

/-- A token of a script. -/
inductive Token where
  | word (w : Word)
  /-- A word that has a meaning of its own where it stands. -/
  | reserved (t : Text)
  | redirect (stream : Option Nat) (mark : Text)
  /-- `;`, `;;`, `&`, `&&`, `||`, `|`, `(` or `)`. -/
  | operator (t : Text)
  | newline
  | finish

/-- What is wrong with a script. -/
inductive SyntaxFault where
  | unclosedQuote
  | unclosedBrace
  | unclosedArithmetic
  | unclosedBackquote
  /-- A loop over words without the name of a variable. -/
  | loopVariable
  /-- A name that no function can have. -/
  | functionName
  /-- A stream that is named by something else than a digit. -/
  | streamNumber
  /-- A token that cannot stand where it does, and the one that would be right there. -/
  | unexpected (found : Text) (wanted : Option Text)
  deriving DecidableEq, Repr

/-- What is wrong with a script, on which line, and what was not read of it. -/
structure SyntaxError where
  line : Nat
  fault : SyntaxFault
  unread : Text
  deriving DecidableEq, Repr

/-- What the shell says about the script. -/
def SyntaxFault.message : SyntaxFault → Text
  | .unclosedQuote => "Syntax error: Unterminated quoted string".toList
  | .unclosedBrace => "Syntax error: Missing '\x7d'".toList
  | .unclosedArithmetic => "Syntax error: Missing '))'".toList
  | .unclosedBackquote => "Syntax error: EOF in backquote substitution".toList
  | .loopVariable => "Syntax error: Bad for loop variable".toList
  | .functionName => "Syntax error: Bad function name".toList
  | .streamNumber => "Syntax error: Bad fd number".toList
  | .unexpected found wanted =>
    let wanted := match wanted with
      | some w => " (expecting ".toList ++ w ++ [')']
      | none => []
    "Syntax error: ".toList ++ found ++ " unexpected".toList ++ wanted

end NotePress.Shell
