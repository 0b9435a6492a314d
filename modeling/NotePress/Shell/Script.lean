import NotePress.Shell.Input

/-!
# Reading scripts

Commands are read one line at a time, with the lines that they go on over, so that what stands in
front of an error can be run. Words such as `if` and `done` have a meaning of their own only where a
command may begin, and only if nothing in them is quoted. Every reader is given fuel that the length
of the text bounds.
-/

namespace NotePress.Shell

open Reader

/-- The variable and the value of an assignment. -/
def assignment? (w : Word) : Option (Text × Word) :=
  match w with
  | .text t :: rest =>
    (Text.cutAt? '=' t).bind fun (name, value) =>
      if isName name then some (name, if value = [] then rest else .text value :: rest) else none
  | _ => none

/-- The commands of the shell that no function can be named for. -/
def specialNames : List String :=
  [":", ".", "break", "continue", "eval", "exec", "exit", "export", "readonly", "return", "set",
    "shift", "times", "trap", "unset", "local"]

/-- Puts redirections around a command, if there are any. -/
def redirect (line : Nat) (c : Command) (rs : List Redirection) : Command :=
  match c, rs with
  | c, [] => c
  | .subshell l c [], rs => .subshell l c rs
  | c, rs => .redirected line c rs

/-- The parts of a simple command. -/
structure Parts where
  assignments : List (Text × Word) := []
  words : List Word := []
  redirections : List Redirection := []

/-- Two commands, one after the other. -/
def andThen (first : Option Command) (second : Command) : Command :=
  match first with
  | some c => .sequence c second
  | none => second

/-- The pipeline of some commands. -/
def pipeline : List Command → Command
  | [c] => c
  | cs => .pipe cs

/-- What follows a name in braces. -/
def formOf (emptyToo : Bool) (mark : Char) (w : Word) : Form :=
  if mark = '-' then .orElse emptyToo w
  else if mark = '=' then .assign emptyToo w
  else if mark = '?' then .orFail emptyToo w
  else if mark = '+' then .andThen emptyToo w
  else .malformed

mutual
/-- Reads the pieces of a word up to its end, or past the mark that closes its context. -/
def readPieces : Nat → Context → Reader Word
  | 0, _ => refuse .unclosedQuote
  | fuel + 1, context => do
    match ← joined? with
    | none =>
      match context.unclosed? with
      | some .unclosedQuote => refuseOpen
      | some fault => refuse fault
      | none => return []
    | some c =>
      let plain := context = .plain ∨ context = .delimiter
      let unquoted := plain ∨ context = .braces
      if plain ∧ endsWord c then return []
      else if c = '\\' then
        skip
        match ← next? with
        | none => return consChar true c (← readPieces fuel context)
        | some x =>
          if context.escapes x then
            skip
            let rest ← readPieces fuel context
            return if context.isQuoted then consChar false x rest else consChar true x rest
          else return consChar false c (← readPieces fuel context)
      else if c = '\'' ∧ unquoted then
        skip
        let inner ← readSingle fuel
        return .literal inner :: (← readPieces fuel context)
      else if c = '"' ∧ context = .double then
        skip
        return []
      else if c = '"' ∧ unquoted then
        skip
        let inner ← readPieces fuel .double
        return .double inner :: (← readPieces fuel context)
      else if c = '"' ∧ context = .doubleBraces then
        skip
        let inner ← readPieces fuel .double
        return inner ++ (← readPieces fuel context)
      else if c = '\x7d' ∧ (context = .braces ∨ context = .doubleBraces) then
        skip
        return []
      else if c = '$' ∧ context ≠ .delimiter then
        skip
        let inner ← readExpansion fuel context
        return inner ++ (← readPieces fuel context)
      else if c = '\x60' ∧ context ≠ .delimiter then
        skip
        let script ← readBackquoted fuel context
        let command ← onText 1 script (readList fuel false true none)
        return .output (command.getD .nothing) :: (← readPieces fuel context)
      else
        skipIn c
        match context with
        | .arithmetic depth =>
          if c = ')' ∧ depth = 0 then
            if ← accept ')' then return []
            else return consChar false c (← readPieces fuel context)
          else
            let depth := if c = '(' then depth + 1 else if c = ')' then depth - 1 else depth
            return consChar false c (← readPieces fuel (.arithmetic depth))
        | _ => return consChar false c (← readPieces fuel context)

/-- Reads what stands in single quotes, behind the first one. -/
def readSingle : Nat → Reader Text
  | 0 => refuse .unclosedQuote
  | fuel + 1 => do
    match ← next? with
    | none => refuseOpen
    | some c =>
      skipIn c
      if c = '\'' then return [] else return c :: (← readSingle fuel)

/-- Reads the script in backquotes, behind the first one. -/
def readBackquoted : Nat → Context → Reader Text
  | 0, _ => refuse .unclosedBackquote
  | fuel + 1, context => do
    match ← joined? with
    | none => refuse .unclosedBackquote
    | some c =>
      skip
      if c = '\x60' then return []
      else if c = '\\' then
        match ← next? with
        | none => refuse .unclosedBackquote
        | some x =>
          skip
          let rest ← readBackquoted fuel context
          if x ∈ "$\x60\\".toList ∨ (x = '"' ∧ context.isQuoted) then return x :: rest
          else return c :: x :: rest
      else return c :: (← readBackquoted fuel context)

/-- Reads an expansion behind its dollar sign, which stands for itself if none follows. -/
def readExpansion : Nat → Context → Reader Word
  | 0, _ => refuse .unclosedQuote
  | fuel + 1, context => do
    match ← joined? with
    | some '(' =>
      skip
      if ← accept '(' then return [.arithmetic (← readPieces fuel (.arithmetic 0))]
      else
        let outer ← get
        set { outer with pending := [], reading := none }
        let command ← readList fuel false true none
        let close ← readToken fuel false false
        if close.isOperator ")" then
          modify fun i => { i with pending := outer.pending, reading := outer.reading }
          return [.output (command.getD .nothing)]
        else unexpected close (some (inQuotes [')']))
    | some '\x7b' =>
      skip
      return [← readBraces fuel context]
    | some c =>
      if opensName c then return [.parameter (← Reader.takeWhile isNameChar) .value]
      else if isSpecial c then
        skip
        return [.parameter [c] .value]
      else return [.text ['$']]
    | none => return [.text ['$']]

/-- Reads what stands in braces behind a dollar sign. -/
def readBraces : Nat → Context → Reader Piece
  | 0, _ => refuse .unclosedBrace
  | fuel + 1, context => do
    let malformed := fun (name : Text) => do
      let _ ← readPieces fuel context.inBraces
      return Piece.parameter name .malformed
    match ← joined? with
    | none => malformed []
    | some c =>
      if opensName c then
        let name ← Reader.takeWhile isNameChar
        readForm fuel context name
      else if c.isDigit then
        let name ← Reader.takeWhile Char.isDigit
        readForm fuel context name
      else if c = '\x7d' then malformed []
      else
        modify Input.pass
        let next := (← joined?).getD '\x7d'
        if c = '#' ∧ isNameChar next then
          let name ← Reader.takeWhile (if next.isDigit then Char.isDigit else isNameChar)
          if ← accept '\x7d' then return .parameter name .length else malformed name
        else if c = '#' ∧ next ≠ '\x7d' ∧ (((← get).skip).skipJoins).rest.head? = some '\x7d' then
          skip
          skip
          return .parameter [next] (if isSpecial next then .length else .malformed)
        else if isSpecial c then readForm fuel context [c]
        else malformed []

/-- Reads what follows the name of a parameter in braces. -/
def readForm : Nat → Context → Text → Reader Piece
  | 0, _, _ => refuse .unclosedBrace
  | fuel + 1, context, name => do
    let emptyToo ← accept ':'
    let next ← joined?
    modify Input.pass
    match next with
    | some '\x7d' =>
      if emptyToo then
        let _ ← readPieces fuel context.inBraces
      return .parameter name .value
    | next =>
      let c := next.getD ':'
      if !emptyToo ∧ (c = '#' ∨ c = '%') then
        let longest ← accept c
        let w ← readPieces fuel .braces
        return .parameter name (.without (c = '%') longest w)
      else return .parameter name (formOf emptyToo c (← readPieces fuel context.inBraces))

/-- Reads a token; on demand line breaks in front of it are passed over, and it may be a reserved
word. -/
def readToken : Nat → (newlines reserved : Bool) → Reader Token
  | 0, _, _ => refuse .unclosedQuote
  | fuel + 1, newlines, reserved => do
    let i ← get
    let t ← match i.returned with
      | some t =>
        set { i with returned := none }
        pure t
      | none =>
        match ← mark? with
        | some t => pure t
        | none => pure (.word (← readPieces fuel .plain))
    if newlines ∧ t.isNewline then
      readDocuments fuel
      readToken fuel newlines reserved
    else
      let t := if reserved then t.asReserved else t
      if !reserved ∨ i.returned.isSome then return t
      else if ← expandAlias t then readToken fuel newlines reserved
      else return t

/-- Reads the here-documents that lines before asked for. -/
def readDocuments : Nat → Reader Unit
  | 0 => return ()
  | fuel + 1 => do
    let i ← get
    match i.pending with
    | [] => return ()
    | d :: pending =>
      if d.expands then
        set ({ i with pending, reading := some ⟨d, none⟩ }.enterLine)
        let w ← readPieces fuel .document
        modify fun inner =>
          { inner with
            rest := inner.unread, reading := i.reading,
            documents := (d.number, w) :: inner.documents }
      else
        let (body, rest) := takeDocument d (i.rest.length + 1) i.rest
        let lines := i.rest.count '\n' - rest.count '\n'
        set { i with
          rest, line := i.line + lines, pending,
          documents := (d.number, [.literal body]) :: i.documents }
      readDocuments fuel

/-- Reads what is redirected, behind its mark. -/
def readRedirection : Nat → (stream : Option Nat) → (mark : Text) → Reader Redirection
  | 0, _, _ => refuse .unclosedQuote
  | fuel + 1, stream, mark => do
    let isDocument := mark = "<<".toList ∨ mark = "<<-".toList
    let t ← if isDocument then
        match ← mark? with
        | some t => pure t
        | none => pure (.word (← readPieces fuel .delimiter))
      else readToken fuel false false
    match t with
    | .word w =>
      let file := fun (stream : Nat) (mode : OpenMode) => Redirection.file stream mode w
      match String.ofList mark with
      | ">" => return file (stream.getD 1) .write
      | ">>" => return file (stream.getD 1) .append
      | ">|" => return file (stream.getD 1) .overwrite
      | "<>" => return file (stream.getD 0) .readWrite
      | ">&" => return .duplicate (stream.getD 1) w
      | "<&" => return .duplicate (stream.getD 0) w
      | "<" => return file (stream.getD 0) .read
      | _ =>
        let (delimiter, quoted) := delimiterOf w
        let i ← get
        let document : PendingDocument :=
          ⟨i.nextDocument, delimiter, !quoted, mark = "<<-".toList⟩
        set { i with pending := i.pending ++ [document], nextDocument := i.nextDocument + 1 }
        return .here (stream.getD 0) document.number
    | t => unexpected t none

/-- Reads the redirections behind a command. Only the token right behind the command may be a
reserved word. -/
def readRedirections : Nat → (reserved : Bool) → Reader (List Redirection)
  | 0, _ => return []
  | fuel + 1, reserved => do
    match ← readToken fuel false reserved with
    | .redirect stream mark =>
      let r ← readRedirection fuel stream mark
      return r :: (← readRedirections fuel false)
    | t =>
      putBack t
      return []

/-- Reads commands up to the end of their list, or of their line; an empty list is refused unless it
may be empty, or commands stand in front of it. -/
def readList : Nat → (oneLine mayBeEmpty : Bool) → (before : Option Command) →
    Reader (Option Command)
  | 0, _, _, _ => refuse .unclosedQuote
  | fuel + 1, oneLine, mayBeEmpty, before => do
    let t ← readToken fuel (!oneLine) true
    if t.isNewline then
      readDocuments fuel
      return before
    putBack t
    let atEnd := match t with
      | .finish => true
      | t => !oneLine && (mayBeEmpty || before.isSome) && t.endsList
    if atEnd then
      if t.isFinish then readDocuments fuel
      return before
    let c ← readAndOr fuel
    let line := (← get).line
    let t ← readToken fuel false false
    let all := andThen before (if t.isOperator "&" then .background line c else c)
    if t.isOperator ";" ∨ t.isOperator "&" then readList fuel oneLine mayBeEmpty (some all)
    else
      putBack t
      if t.isNewline then readList fuel oneLine mayBeEmpty (some all)
      else
        match t with
        | .finish =>
          readDocuments fuel
          return some all
        | t => if oneLine then unexpected t none else return some all

/-- Reads pipelines joined by `&&` and `||`. -/
def readAndOr : Nat → Reader Command
  | 0 => refuse .unclosedQuote
  | fuel + 1 => do
    let first ← readPipeline fuel false
    readJoined fuel first

/-- Reads what is joined to a first pipeline. -/
def readJoined : Nat → Command → Reader Command
  | 0, c => return c
  | fuel + 1, c => do
    let t ← readToken fuel false false
    if t.isOperator "&&" then readJoined fuel (.both c (← readPipeline fuel true))
    else if t.isOperator "||" then readJoined fuel (.either c (← readPipeline fuel true))
    else
      putBack t
      return c

/-- Reads a pipeline. -/
def readPipeline : Nat → (newlines : Bool) → Reader Command
  | 0, _ => refuse .unclosedQuote
  | fuel + 1, newlines => do
    let t ← readToken fuel newlines newlines
    if t.isReserved "!" then return .negated (pipeline (← readStages fuel false true))
    else
      putBack t
      return pipeline (← readStages fuel false false)

/-- Reads the commands of a pipeline. -/
def readStages : Nat → (newlines reserved : Bool) → Reader (List Command)
  | 0, _, _ => refuse .unclosedQuote
  | fuel + 1, newlines, reserved => do
    let c ← readCommand fuel newlines reserved
    let t ← readToken fuel false false
    if t.isOperator "|" then return c :: (← readStages fuel true true)
    else
      putBack t
      return [c]

/-- Reads a list of commands that is not empty. -/
def readBody : Nat → Reader Command
  | 0 => refuse .unclosedQuote
  | fuel + 1 => return (← readList fuel false false none).getD .nothing

/-- Reads a token that has to be a reserved word. -/
def expect : Nat → (newlines : Bool) → String → Reader Unit
  | 0, _, _ => refuse .unclosedQuote
  | fuel + 1, newlines, w => do
    let t ← readToken fuel newlines newlines
    if t.isReserved w then return () else unexpected t (some (inQuotes w.toList))

/-- Reads a command with its redirections. -/
def readCommand : Nat → (newlines reserved : Bool) → Reader Command
  | 0, _, _ => refuse .unclosedQuote
  | fuel + 1, newlines, reserved => do
    let t ← readToken fuel newlines reserved
    let line := (← get).line
    match t with
    | .word _ =>
      putBack t
      readSimple fuel line {}
    | .redirect _ _ =>
      putBack t
      readSimple fuel line {}
    | .operator _ =>
      if t.isOperator "(" then
        let c ← readBody fuel
        let close ← readToken fuel false false
        if close.isOperator ")" then
          return redirect line (.subshell line c []) (← readRedirections fuel true)
        else unexpected close (some (inQuotes [')']))
      else unexpected t none
    | .reserved w =>
      let c ← match String.ofList w with
        | "\x7b" => do
          let c ← readBody fuel
          expect fuel false "\x7d"
          pure c
        | "if" => readChoice fuel
        | "while" => readLoop fuel false
        | "until" => readLoop fuel true
        | "for" => readEach fuel line
        | "case" => readCases fuel line
        | _ => unexpected t none
      return redirect line c (← readRedirections fuel true)
    | t => unexpected t none

/-- Reads the rest of a simple command, or of a function. -/
def readSimple : Nat → (line : Nat) → Parts → Reader Command
  | 0, _, _ => refuse .unclosedQuote
  | fuel + 1, line, p => do
    let t ← readToken fuel false false
    match t with
    | .word w =>
      match if p.words.isEmpty then assignment? w else none with
      | some a => readSimple fuel line { p with assignments := p.assignments ++ [a] }
      | none => readSimple fuel line { p with words := p.words ++ [w] }
    | .redirect stream mark =>
      let r ← readRedirection fuel stream mark
      readSimple fuel line { p with redirections := p.redirections ++ [r] }
    | t =>
      match p with
      | ⟨[], [w], []⟩ =>
        if t.isOperator "(" then
          let close ← readToken fuel false false
          if close.isOperator ")" then
            let isFree := fun (n : Text) => isName n && !specialNames.contains (String.ofList n)
            match (plainText? w).filter isFree with
            | some name => return .define name (← readCommand fuel true true)
            | none => refuse .functionName
          else unexpected close (some (inQuotes [')']))
        else
          putBack t
          return .simple line [] [w] []
      | p =>
        putBack t
        return .simple line p.assignments p.words p.redirections

/-- Reads a condition and its branches, behind `if` or `elif`. -/
def readChoice : Nat → Reader Command
  | 0 => refuse .unclosedQuote
  | fuel + 1 => do
    let condition ← readBody fuel
    expect fuel false "then"
    let yes ← readBody fuel
    let t ← readToken fuel false false
    if t.isReserved "elif" then return .choose condition yes (← readChoice fuel)
    else
      let no ← if t.isReserved "else" then readBody fuel else do
        putBack t
        pure .nothing
      expect fuel false "fi"
      return .choose condition yes no

/-- Reads a loop behind its first word. -/
def readLoop : Nat → (until_ : Bool) → Reader Command
  | 0, _ => refuse .unclosedQuote
  | fuel + 1, until_ => do
    let condition ← readBody fuel
    expect fuel false "do"
    let body ← readBody fuel
    expect fuel false "done"
    return .loop until_ condition body

/-- Reads words up to the end of the line or command. -/
def readWords : Nat → Reader (List Word)
  | 0 => refuse .unclosedQuote
  | fuel + 1 => do
    match ← readToken fuel false false with
    | .word w => return w :: (← readWords fuel)
    | t => if t.isNewline ∨ t.isOperator ";" then return [] else unexpected t none

/-- Reads a loop over words behind `for`. -/
def readEach : Nat → (line : Nat) → Reader Command
  | 0, _ => refuse .unclosedQuote
  | fuel + 1, line => do
    match ← readToken fuel false false with
    | .word w =>
      match (plainText? w).filter isName with
      | none => refuse .loopVariable
      | some name =>
        let t ← readToken fuel true true
        let words ← if t.isReserved "in" then some <$> readWords fuel else do
          if !t.isOperator ";" then putBack t
          pure none
        expect fuel true "do"
        let body ← readBody fuel
        expect fuel false "done"
        return .each line name words body
    | _ => refuse .loopVariable

/-- Reads a choice by patterns behind `case`. -/
def readCases : Nat → (line : Nat) → Reader Command
  | 0, _ => refuse .unclosedQuote
  | fuel + 1, line => do
    match ← readToken fuel false false with
    | .word subject =>
      expect fuel true "in"
      return .cases line subject (← readClauses fuel)
    | t => unexpected t (some "word".toList)

/-- Reads clauses up to `esac`. -/
def readClauses : Nat → Reader (List (List Word × Command))
  | 0 => refuse .unclosedQuote
  | fuel + 1 => do
    let t ← readToken fuel true true
    if t.isReserved "esac" then return []
    else
      let t ← if t.isOperator "(" then readToken fuel false false else pure t
      let patterns ← readPatterns fuel t
      let body ← readList fuel false true none
      let clause := (patterns, body.getD .nothing)
      let t ← readToken fuel true true
      if t.isReserved "esac" then return [clause]
      else if t.isOperator ";;" then return clause :: (← readClauses fuel)
      else unexpected t (some (inQuotes ";;".toList))

/-- Reads the patterns of a clause, the first of which is read already, past their bracket. -/
def readPatterns : Nat → Token → Reader (List Word)
  | 0, _ => refuse .unclosedQuote
  | fuel + 1, t => do
    let w : Word := match t with
      | .word w => w
      | .reserved t => [.text t]
      | _ => []
    let next ← readToken fuel false false
    if next.isOperator "|" then
      let t ← readToken fuel false false
      return w :: (← readPatterns fuel t)
    else if next.isOperator ")" then return [w]
    else unexpected next (some (inQuotes [')']))
end

/-- The word of a text that is expanded as if it stood in a here-document; none if it cannot be. -/
def promptWord? (t : Text) : Option Word :=
  match readPieces (8 * t.length + 64) .document { rest := t } with
  | .ok (w, _) => some w
  | .error _ => none

/-- What reading the next lines of a script gives. -/
inductive Reading where
  /-- There is nothing left. -/
  | finished
  /-- A command, or an empty line, and what is left. -/
  | command (c : Option Command) (rest : Input)
  | refused (e : SyntaxError)

/-- Bounds the steps of reading a line. -/
def Input.fuel (i : Input) : Nat :=
  8 * i.rest.length + 64 + if i.aliases.isEmpty then 0 else 1000000

/-- Reads the next line of a script, with the lines that it goes on over. -/
def Input.read (i : Input) : Reading :=
  match readList i.fuel true false none i with
  | .error e => .refused e
  | .ok (c, i) =>
    match c, i.returned with
    | none, some .finish => .finished
    | c, _ => .command c i

end NotePress.Shell
