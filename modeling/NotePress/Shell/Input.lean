import NotePress.Shell.Syntax

/-!
# Reading a script's text

What is left of a script while it is read, and the names and marks that its text consists of. A
backslash in front of a line break joins two lines wherever nothing is quoted.
-/

namespace NotePress.Shell

/-- A character that names of parameters consist of. -/
def isNameChar (c : Char) : Bool := c.isAlphanum || c = '_'

/-- A character that a name begins with. -/
def opensName (c : Char) : Bool := c.isAlpha || c = '_'

/-- Whether a text can name a variable. -/
def isName (t : Text) : Bool :=
  match t with
  | [] => false
  | c :: _ => opensName c && t.all isNameChar

/-- A blank between words. -/
def isGap (c : Char) : Bool := c = ' ' || c = '\t'

/-- A character that ends a word. -/
def endsWord (c : Char) : Bool := isGap c || c ∈ "\n;&|<>()".toList

/-- A character that names a parameter of the shell. -/
def isSpecial (c : Char) : Bool := c.isDigit || c ∈ "@*#?$!-".toList

/-- A here-document whose text is still to come. -/
structure PendingDocument where
  number : Nat
  /-- The line that ends it. -/
  delimiter : Text
  /-- Whether expansions count in it. -/
  expands : Bool
  /-- Whether tabs in front of its lines are dropped. -/
  stripsTabs : Bool

/-- The here-document that is being read, and what stands behind it once it has ended. -/
structure OpenDocument where
  document : PendingDocument
  behind : Option Text := none

/-- Where a script comes from. -/
inductive Origin where
  /-- A text among arguments. -/
  | argument
  /-- A file that a script reads in. -/
  | file
  /-- The file that the shell was started for. -/
  | main
  /-- The input of the shell. -/
  | input
  deriving DecidableEq, Repr

/-- Whether a script is what the shell was started for, so that it may ask for it. -/
def Origin.isMain (o : Origin) : Bool := o = .main || o = .input

/-- What is left of a script. -/
structure Input where
  rest : Text
  line : Nat := 1
  /-- A token that was read and put back. -/
  returned : Option Token := none
  pending : List PendingDocument := []
  reading : Option OpenDocument := none
  /-- The here-documents so far, by number. -/
  documents : List (Nat × Word) := []
  nextDocument : Nat := 0
  /-- Texts that stand for words. -/
  aliases : List (Text × Text) := []
  origin : Origin := .argument
  /-- The aliases whose texts are being read, each with the length of what is left behind it. -/
  open_ : List (Text × Nat) := []

/-- Reads a part of a script. -/
abbrev Reader := StateT Input (Except SyntaxError)

namespace Input

/-- Goes past joined lines. -/
def skipJoins (i : Input) : Input :=
  go i.rest i.line
where
  go : Text → Nat → Input
    | '\\' :: '\n' :: rest, line => go rest (line + 1)
    | rest, line => { i with rest, line }

/-- Goes past a character. -/
def skip (i : Input) : Input :=
  match i.rest with
  | [] => i
  | c :: rest => { i with rest, line := if c = '\n' then i.line + 1 else i.line }

/-- Goes past a character that does not count as the end of a line. -/
def pass (i : Input) : Input := { i with rest := i.rest.tail }

/-- What is still to be read. -/
def unread (i : Input) : Text := (i.reading.bind (·.behind)).getD i.rest

/-- At the beginning of a line in a here-document: tabs are dropped on demand, and the line that
ends the document is passed, so that nothing is left of it. -/
def enterLine (i : Input) : Input :=
  match i.reading with
  | none => i
  | some ⟨d, _⟩ =>
    let rest := if d.stripsTabs then i.rest.dropWhile (· = '\t') else i.rest
    if rest.takeWhile (· ≠ '\n') = d.delimiter ∧ rest ≠ [] then
      { i with
        rest := [], line := i.line + 1,
        reading := some ⟨d, some (rest.drop (d.delimiter.length + 1))⟩ }
    else { i with rest }

/-- What was read until only some text was left. -/
def textRead (i : Input) (unread : Text) : Text := i.rest.take (i.rest.length - unread.length)

/-- The lines that were read until only some text was left, the last one to its end. -/
def linesRead (i : Input) (unread : Text) : List Text :=
  let read := i.textRead unread
  let whole :=
    if read = [] ∨ read.getLast? = some '\n' then read
    else
      let rest := i.rest.drop read.length
      let line := rest.takeWhile (· ≠ '\n')
      read ++ line ++ (rest.drop line.length).take 1
  let pieces := whole.breakLines
  (pieces.dropLast.map (· ++ ['\n'])) ++ (pieces.getLast?.filter (· ≠ [])).toList

/-- Whether nothing is left behind what was read. -/
def isAtEnd (i : Input) : Bool :=
  match i.returned with
  | some .finish => true
  | _ => false

/-- Puts the text of an alias in place of a word that was read, unless that is a part of it. -/
def unalias? (i : Input) (w : Text) : Option Input :=
  let open_ := i.open_.filter fun a => a.2 ≤ i.rest.length
  if (open_.lookup w).isSome then none
  else
    (i.aliases.lookup w).map fun t =>
      { i with rest := t ++ i.rest, open_ := (w, i.rest.length) :: open_ }

/-- Goes past characters that satisfy `p`, joining lines, and gives them. -/
def takeWhile (p : Char → Bool) : Nat → Input → Text × Input
  | 0, i => ([], i)
  | fuel + 1, i =>
    let i := i.skipJoins
    match i.rest with
    | c :: _ =>
      if p c then
        let (more, i) := takeWhile p fuel i.skip
        (c :: more, i)
      else ([], i)
    | [] => ([], i)

/-- Goes past blanks, joined lines and comments. -/
def skipGaps : Nat → Input → Input
  | 0, i => i
  | fuel + 1, i =>
    let i := i.skipJoins
    match i.rest with
    | c :: rest =>
      if isGap c then skipGaps fuel i.skip
      else if c = '#' then { i with rest := rest.dropWhile (· ≠ '\n') }
      else i
    | [] => i

end Input

namespace Reader

/-- Refuses the script. -/
def refuse {α : Type} (fault : SyntaxFault) : Reader α := fun i => .error ⟨i.line, fault, i.unread⟩

/-- The next character. -/
def next? : Reader (Option Char) := return (← get).rest.head?

/-- The next character behind joined lines. -/
def joined? : Reader (Option Char) := do
  modify Input.skipJoins
  next?

/-- Goes past a character. -/
def skip : Reader Unit := modify Input.skip

/-- Goes past a character of a word, which may be the last one of a line. -/
def skipIn (c : Char) : Reader Unit := do
  skip
  if c = '\n' then modify Input.enterLine

/-- Refuses a script that ends in quotes; in a here-document, these stand in braces. -/
def refuseOpen {α : Type} : Reader α := do
  refuse (if (← get).reading.isSome then .unclosedBrace else .unclosedQuote)

/-- Goes past a character if it is the given one, behind joined lines. -/
def accept (c : Char) : Reader Bool := do
  if (← joined?) = some c then
    skip
    return true
  else return false

/-- Takes characters that satisfy `p`. -/
def takeWhile (p : Char → Bool) : Reader Text := do
  let i ← get
  let (t, i) := i.takeWhile p (i.rest.length + 1)
  set i
  return t

/-- Puts a token back. -/
def putBack (t : Token) : Reader Unit := modify fun i => { i with returned := some t }

/-- Runs a reader on another text, from a line on; here-documents are kept. -/
def onText {α : Type} (line : Nat) (t : Text) (r : Reader α) : Reader α := fun outer =>
  match r { outer with rest := t, line, returned := none, pending := [], reading := none } with
  | .ok (a, inner) =>
    .ok (a, { outer with documents := inner.documents, nextDocument := inner.nextDocument })
  | .error e => .error { e with unread := outer.unread }

end Reader

/-! ### Words -/

/-- Where a part of a word is read. -/
inductive Context where
  /-- Outside of quotes. -/
  | plain
  /-- Outside of quotes, for the delimiter of a here-document, in which nothing expands. -/
  | delimiter
  | double
  /-- In braces outside of quotes. -/
  | braces
  /-- In braces inside of double quotes. -/
  | doubleBraces
  /-- In so many round brackets of an arithmetic expression. -/
  | arithmetic (depth : Nat)
  /-- In a here-document. -/
  | document
  deriving DecidableEq, Repr

namespace Context

/-- Whether double quotes, or what is like them, are around. -/
def isQuoted : Context → Bool
  | .plain => false
  | .delimiter => false
  | .braces => false
  | _ => true

/-- The context of a word in braces. -/
def inBraces (c : Context) : Context := if c.isQuoted then .doubleBraces else .braces

/-- What is wrong if the script ends here; nothing where a word may end. -/
def unclosed? : Context → Option SyntaxFault
  | .plain => none
  | .delimiter => none
  | .document => none
  | .double => some .unclosedQuote
  | .doubleBraces => some .unclosedQuote
  | .braces => some .unclosedBrace
  | .arithmetic _ => some .unclosedArithmetic

/-- Whether a backslash takes the special meaning from a character, rather than standing for
itself. -/
def escapes (context : Context) (c : Char) : Bool :=
  !context.isQuoted || c ∈ "$\x60\\".toList || (c = '"' && context ≠ .document) ||
    (c = '\x7d' && context = .doubleBraces)

end Context

/-- Puts a character in front of a word, as what stands without quotes or is taken literally. -/
def consChar (literal : Bool) (c : Char) : Word → Word
  | .text t :: rest => if literal then .literal [c] :: .text t :: rest else .text (c :: t) :: rest
  | w => (if literal then .literal [c] else .text [c]) :: w

/-- The text of a word in which nothing is quoted or expanded. -/
def plainText? : Word → Option Text
  | [.text t] => some t
  | _ => none

mutual
/-- The text of a word in which nothing expands, and whether some of it is quoted. -/
def delimiterOf : List Piece → Text × Bool
  | [] => ([], false)
  | p :: rest =>
    let (t, quoted) := delimiterPart p
    let (more, quotedLater) := delimiterOf rest
    (t ++ more, quoted || quotedLater)

def delimiterPart : Piece → Text × Bool
  | .text t => (t, false)
  | .literal t => (t, true)
  | .double inner => ((delimiterOf inner).1, true)
  | _ => ([], false)
end

/-- Takes the lines of a here-document in which nothing expands off a text, and the line that ends
it. -/
def takeDocument (d : PendingDocument) : Nat → Text → Text × Text
  | 0, t => ([], t)
  | _ + 1, [] => ([], [])
  | fuel + 1, t =>
    let line := t.takeWhile (· ≠ '\n')
    let rest := t.drop line.length
    let line := if d.stripsTabs then line.dropWhile (· = '\t') else line
    if line = d.delimiter then ([], rest.tail)
    else
      let (more, after) := takeDocument d fuel rest.tail
      (line ++ rest.take 1 ++ more, after)

/-! ### Tokens -/

/-- The words that mean something where a command may begin. -/
def reservedWords : List String :=
  ["if", "then", "elif", "else", "fi", "for", "in", "while", "until", "do", "done", "case", "esac",
    "!", "\x7b", "\x7d"]

/-- A text in double quotes. -/
def inQuotes (t : Text) : Text := ['"'] ++ t ++ ['"']

namespace Token

/-- How a token is called in messages. -/
def describe : Token → Text
  | .word _ => "word".toList
  | .reserved t => inQuotes t
  | .redirect _ _ => "redirection".toList
  | .operator t => inQuotes t
  | .newline => "newline".toList
  | .finish => "end of file".toList

/-- Whether a token is the given operator. -/
def isOperator (t : Token) (o : String) : Bool :=
  match t with
  | .operator u => u = o.toList
  | _ => false

/-- Whether a token is the given reserved word. -/
def isReserved (t : Token) (w : String) : Bool :=
  match t with
  | .reserved u => u = w.toList
  | _ => false

/-- The text of a word in which nothing is quoted or expanded. -/
def plain? : Token → Option Text
  | .word w => plainText? w
  | _ => none

/-- Whether a token breaks a line. -/
def isNewline : Token → Bool
  | .newline => true
  | _ => false

/-- Whether a token is the end of the script. -/
def isFinish : Token → Bool
  | .finish => true
  | _ => false

/-- Whether a list of commands ends in front of a token. -/
def endsList (t : Token) : Bool :=
  match t with
  | .finish => true
  | .operator o => o = [')'] || o = ";;".toList
  | .reserved w =>
    ["then", "elif", "else", "fi", "do", "done", "esac", "\x7d"].any fun e => e.toList = w
  | _ => false

/-- The token as a reserved word, if it is one. -/
def asReserved (t : Token) : Token :=
  match t with
  | .word w =>
    match plainText? w with
    | some u => if reservedWords.any fun r => r.toList = u then .reserved u else t
    | none => t
  | _ => t

end Token

namespace Reader

/-- Refuses a token. -/
def unexpected {α : Type} (found : Token) (wanted : Option Text) : Reader α :=
  refuse (.unexpected found.describe wanted)

/-- Reads what an alias stands for instead of a token, and says whether it is one. -/
def expandAlias (t : Token) : Reader Bool := do
  let i ← get
  match t.plain?.bind i.unalias? with
  | some i =>
    set i
    return true
  | none => return false

/-- Reads the mark of a redirection behind its first character. -/
def redirectMark (first : Char) : Reader Text := do
  if first = '>' then
    if ← accept '>' then return ">>".toList
    else if ← accept '|' then return ">|".toList
    else if ← accept '&' then return ">&".toList
    else return ['>']
  else if ← accept '<' then
    if ← accept '-' then return "<<-".toList else return "<<".toList
  else if ← accept '&' then return "<&".toList
  else if ← accept '>' then return "<>".toList
  else return ['<']

/-- Reads an operator, a redirection or a line break, if one comes next. -/
def mark? : Reader (Option Token) := do
  modify fun i => i.skipGaps (i.rest.length + 1)
  let i ← get
  match i.rest with
  | [] => return some .finish
  | c :: rest =>
    let twice := fun (single double : String) => do
      skip
      if ← accept c then return some (Token.operator double.toList)
      else return some (.operator single.toList)
    if c = '\n' then
      skip
      return some .newline
    else if c = '&' then twice "&" "&&"
    else if c = '|' then twice "|" "||"
    else if c = ';' then twice ";" ";;"
    else if c = '(' ∨ c = ')' then
      skip
      return some (.operator [c])
    else if c = '<' ∨ c = '>' then
      skip
      return some (.redirect none (← redirectMark c))
    else if c.isDigit ∧ (rest.head? = some '<' ∨ rest.head? = some '>') then
      skip
      let first := rest.headD '<'
      skip
      return some (.redirect (some (c.toNat - '0'.toNat)) (← redirectMark first))
    else return none

end Reader

end NotePress.Shell
