import NotePress.Yaml.Scalar
import NotePress.Text.Utf8

/-!
# Tokens of a YAML text

The marks, names and scalars of a text, with the begin and end of blocks made explicit from the
indentation. What stands in front of a `:` is known to be a key only when the colon is met, so the
scanner remembers where a key may have begun, one place for each open flow collection, and puts the
key's token in afterwards. A key of that kind is on one line and at most 1024 bytes long.
-/

namespace NotePress.Yaml

/-- A token. -/
inductive Token where
  | documentStart
  | documentEnd
  /-- `%YAML`: the two parts of the version. -/
  | versionDirective (major minor : Nat)
  /-- `%TAG`: a handle and what it stands for. -/
  | tagDirective (handle : Text) (expansion : List UInt8)
  | blockSequenceStart
  | blockMappingStart
  | blockEnd
  | flowSequenceStart
  | flowSequenceEnd
  | flowMappingStart
  | flowMappingEnd
  | blockEntry
  | flowEntry
  | key
  | value
  | alias_ (name : Text)
  | anchor (name : Text)
  /-- A tag: its handle, empty for a full tag, and the rest in bytes, since escapes spell any. -/
  | tag (handle : Text) (rest : List UInt8)
  /-- A scalar, and whether it stands without quotes or a block mark. -/
  | scalar (value : Text) (plain : Bool)
  deriving DecidableEq, Repr

/-- The tag that consists of its mark alone. -/
def bareTag : List UInt8 := Text.encode ['!']

/-- Where a key may have begun. -/
structure KeyPlace where
  /-- Whether it has to be a key, because nothing else may stand there. -/
  required : Bool
  /-- The number of tokens in front of it. -/
  tokenNumber : Nat
  line : Nat
  index : Nat
  column : Nat
  deriving Repr

/-- The state of the scanner. -/
structure Scanner where
  cursor : Cursor
  /-- The tokens so far, the last one first. -/
  tokens : List Token := []
  /-- The column of the innermost block, less than zero outside of any. -/
  indent : Int := -1
  /-- The columns of the blocks around it. -/
  outer : List Int := []
  /-- Whether a key may begin here. -/
  keyAllowed : Bool := true
  /-- Where a key may have begun, outside and in each open flow collection, innermost first. -/
  places : List (Option KeyPlace) := [none]
  deriving Repr

namespace Scanner

/-- Whether a flow collection is open. -/
def inFlow (s : Scanner) : Bool := 1 < s.places.length

/-- Adds a token. -/
def emit (s : Scanner) (t : Token) : Scanner := { s with tokens := t :: s.tokens }

/-- Puts a token in behind the first `n` ones. -/
def insertToken (s : Scanner) (n : Nat) (t : Token) : Scanner :=
  let later := s.tokens.length - n
  { s with tokens := s.tokens.take later ++ t :: s.tokens.drop later }

/-- Closes the blocks that are indented further than a column. -/
def closeBlocks (s : Scanner) (column : Int) : Scanner :=
  if s.inFlow then s
  else
    let rec go : List Int → Int → List Token → List Int × Int × List Token
      | [], indent, tokens => ([], indent, tokens)
      | next :: rest, indent, tokens =>
        if column < indent then go rest next (.blockEnd :: tokens)
        else (next :: rest, indent, tokens)
    let (outer, indent, tokens) := go s.outer s.indent s.tokens
    { s with outer, indent, tokens }

/-- Opens a block at a column if it is indented further; `at_` tells where its token goes. -/
def openBlock (s : Scanner) (column : Nat) (at_ : Option Nat) (t : Token) : Scanner :=
  if s.inFlow ∨ (column : Int) ≤ s.indent then s
  else
    let s := { s with outer := s.indent :: s.outer, indent := column }
    match at_ with
    | some n => s.insertToken n t
    | none => s.emit t

/-- Whether a key that began at a place can end here; none if it had to be one and cannot. -/
def placeHolds? (s : Scanner) (p : KeyPlace) : Option Bool :=
  if p.line < s.cursor.line ∨ p.index + 1024 < s.cursor.index then
    if p.required then none else some false
  else some true

/-- Forgets places of keys that cannot end here. -/
def dropStale? (s : Scanner) : Option Scanner :=
  let kept := s.places.mapM fun place =>
    match place with
    | none => some none
    | some p => (s.placeHolds? p).map fun (holds : Bool) => if holds then some p else none
  kept.map fun places => { s with places }

/-- Forgets where the innermost key may have begun. -/
def forgetKey? (s : Scanner) : Option Scanner :=
  match s.places with
  | some p :: rest => if p.required then none else some { s with places := none :: rest }
  | _ => some s

/-- Remembers that a key may begin here. -/
def rememberKey? (s : Scanner) : Option Scanner :=
  if s.keyAllowed then
    s.forgetKey?.map fun s =>
      let c := s.cursor
      let place : KeyPlace :=
        ⟨!s.inFlow && s.indent = (c.column : Int), s.tokens.length, c.line, c.index, c.column⟩
      { s with places := some place :: s.places.tail }
  else some s

/-! ### Between tokens -/

/-- Goes past blanks, comments and breaks in front of a token, and past a byte order mark at the
start of a line, which takes a column like any other character. -/
def skipGaps : Nat → Scanner → Scanner
  | 0, s => s
  | fuel + 1, s =>
    let c := s.cursor
    let c := if c.column = 0 ∧ c.sees '\ufeff' then c.skip else c
    let tabs := s.inFlow || !s.keyAllowed
    let c := c.dropWhile fun x => x = ' ' || tabs && x = '\t'
    let c := if c.sees '#' then c.dropWhile fun x => !isBreak x else c
    if isBreakAt c.peek then
      skipGaps fuel
        { s with cursor := c.takeBreak.2, keyAllowed := if s.inFlow then s.keyAllowed else true }
    else { s with cursor := c }

/-! ### Names and tags -/

/-- Reads the name of an anchor or alias behind its mark. -/
def readName? (c : Cursor) : Option (Text × Cursor) :=
  let (name, c) := c.takeWhile isNameChar
  if name ≠ [] ∧ (isGapOrEnd c.peek ∨ c.peek.any fun x => "?:,]\x7d%@\x60".toList.contains x) then
    some (name, c)
  else none

/-- Reads the handle of a tag, such as `!`, `!!` or `!name!`; without its closing mark it is the
beginning of the tag itself, which a directive refuses. -/
def readHandle? (inDirective : Bool) (c : Cursor) : Option (Text × Cursor) :=
  if !c.sees '!' then none
  else
    let (name, c) := c.skip.takeWhile isNameChar
    if c.sees '!' then some ('!' :: name ++ ['!'], c.skip)
    else if inDirective ∧ name ≠ [] then none
    else some ('!' :: name, c)

/-- A character of a tag, those of full tags and directives included if asked for. -/
def isTagChar (full : Bool) (x : Char) : Bool :=
  isNameChar x || ";/?:@&=+$.!~*'()".toList.contains x || full && ",[]".toList.contains x

/-- Reads bytes that are escaped as `%` and two hexadecimal digits. -/
def readEscapedBytes : Nat → Text → List UInt8 × Text
  | 0, t => ([], t)
  | fuel + 1, t =>
    match t with
    | '%' :: rest =>
      match readHex? 2 rest with
      | some n =>
        let (bytes, t) := readEscapedBytes fuel (rest.drop 2)
        (n.toUInt8 :: bytes, t)
      | none => ([], t)
    | _ => ([], t)

/-- The number of bytes of a character that begins with the given one. -/
def widthOf? (b : UInt8) : Option Nat :=
  if b < 0x80 then some 1
  else if b < 0xC0 then none
  else if b < 0xE0 then some 2
  else if b < 0xF0 then some 3
  else if b < 0xF8 then some 4
  else none

/-- Whether a byte goes on with a character. -/
def isTrailing (b : UInt8) : Bool := 0x80 ≤ b && b < 0xC0

/-- Reads one character that is escaped byte by byte. -/
def readEscapedChar? (c : Cursor) : Option (List UInt8 × Cursor) :=
  match readEscapedBytes 4 c.rest with
  | ([], _) => none
  | (b :: bytes, _) =>
    (widthOf? b).bind fun width =>
      if width ≤ bytes.length + 1 ∧ (bytes.take (width - 1)).all isTrailing then
        some ((b :: bytes).take width, c.skips (3 * width))
      else none

/-- Reads the characters of a tag. -/
def readTagChars? (full : Bool) : Nat → Cursor → Option (List UInt8 × Cursor)
  | 0, c => some ([], c)
  | fuel + 1, c =>
    let (taken, c) := c.takeWhile (isTagChar full)
    if c.sees '%' then
      (readEscapedChar? c).bind fun (bytes, c) =>
        (readTagChars? full fuel c).map fun (more, c) => (Text.encode taken ++ bytes ++ more, c)
    else some (Text.encode taken, c)

/-- The part of a tag that counts: an escaped zero ends it. -/
def untilZero (bytes : List UInt8) : List UInt8 := bytes.takeWhile (· ≠ 0)

/-- Reads a tag at its mark. -/
def readTag? (inFlow : Bool) (c : Cursor) : Option (Token × Cursor) :=
  let fuel := c.rest.length + 1
  let found? : Option (Token × Cursor) :=
    if c.ahead 1 = some '<' then
      (readTagChars? true fuel (c.skips 2)).bind fun (tag, c) =>
        if tag ≠ [] ∧ c.sees '>' then some (.tag [] (untilZero tag), c.skip) else none
    else
      (readHandle? false c).bind fun (handle, c) =>
        if 2 ≤ handle.length ∧ handle.getLast? = some '!' then
          (readTagChars? false fuel c).bind fun (rest, c) =>
            if rest ≠ [] then some (.tag handle (untilZero rest), c) else none
        else
          (readTagChars? false fuel c).map fun (rest, c) =>
            let rest := untilZero (Text.encode handle.tail ++ rest)
            (if rest = [] then .tag [] bareTag else .tag ['!'] rest, c)
  found?.filter fun p => (inFlow && p.2.sees ',') || isGapOrEnd p.2.peek

/-! ### Directives -/

/-- Reads a part of a version: one to nine digits. -/
def readVersionPart? (c : Cursor) : Option (Nat × Cursor) :=
  let (digits, c) := c.takeWhile Char.isDigit
  if digits.length ≤ 9 then (readNat? digits).map fun n => (n, c) else none

/-- Reads what follows the name of a directive. -/
def readDirectiveValue? (name : Text) (c : Cursor) : Option (Token × Cursor) :=
  let c := c.dropWhile isSpaceTab
  if name = "YAML".toList then
    (readVersionPart? c).bind fun (major, c) =>
      if c.sees '.' then
        (readVersionPart? c.skip).map fun (minor, c) => (.versionDirective major minor, c)
      else none
  else if name = "TAG".toList then
    (readHandle? true c).bind fun (handle, c) =>
      if isGapAt c.peek then
        let c := c.dropWhile isSpaceTab
        (readTagChars? true (c.rest.length + 1) c).bind fun (expansion, c) =>
          if expansion ≠ [] ∧ isGapOrEnd c.peek then
            some (.tagDirective handle (untilZero expansion), c)
          else none
      else none
  else none

/-- Reads a directive at its mark, up to the end of the line. -/
def readDirective? (c : Cursor) : Option (Token × Cursor) :=
  let (name, c) := c.skip.takeWhile isNameChar
  if name = [] ∨ !isGapOrEnd c.peek then none
  else
    (readDirectiveValue? name c).bind fun (t, c) =>
      let c := c.dropWhile isSpaceTab
      let c := if c.sees '#' then c.dropWhile fun x => !isBreak x else c
      if isBreakOrEnd c.peek then some (t, c.takeBreak.2) else none

/-! ### One token -/

/-- A mark of so many characters, after which keys are allowed or not. -/
def mark (s : Scanner) (t : Token) (length : Nat) (keyAllowed : Bool) : Scanner :=
  { s with cursor := s.cursor.skips length, keyAllowed }.emit t

/-- The mark that starts or ends a document. -/
def documentMark? (s : Scanner) (t : Token) : Option Scanner :=
  (s.closeBlocks (-1)).forgetKey?.map fun s => s.mark t 3 false

/-- The mark that opens a flow collection. -/
def openFlow? (s : Scanner) (t : Token) : Option Scanner :=
  s.rememberKey?.map fun s => { s with places := none :: s.places }.mark t 1 true

/-- The mark that closes a flow collection. -/
def closeFlow? (s : Scanner) (t : Token) : Option Scanner :=
  s.forgetKey?.map fun s =>
    { s with places := if s.inFlow then s.places.tail else s.places }.mark t 1 false

/-- The mark of an entry of a block list. -/
def blockEntry? (s : Scanner) : Option Scanner :=
  if !s.inFlow ∧ !s.keyAllowed then none
  else
    (s.openBlock s.cursor.column none .blockSequenceStart).forgetKey?.map fun s =>
      s.mark .blockEntry 1 true

/-- The mark of a key. -/
def key? (s : Scanner) : Option Scanner :=
  if !s.inFlow ∧ !s.keyAllowed then none
  else
    (s.openBlock s.cursor.column none .blockMappingStart).forgetKey?.map fun s =>
      s.mark .key 1 (!s.inFlow)

/-- The mark of a value, behind a key that began at the remembered place or without one. -/
def value? (s : Scanner) : Option Scanner :=
  match s.places with
  | some p :: rest =>
    (s.placeHolds? p).bind fun holds =>
      if holds then
        let s := s.insertToken p.tokenNumber .key
        let s := s.openBlock p.column (some p.tokenNumber) .blockMappingStart
        some ({ s with places := none :: rest }.mark .value 1 false)
      else plain { s with places := none :: rest }
  | _ => plain s
where
  /-- A value whose key is empty or marked. -/
  plain (s : Scanner) : Option Scanner :=
    if !s.inFlow ∧ !s.keyAllowed then none
    else
      some ((s.openBlock s.cursor.column none .blockMappingStart).mark .value 1 (!s.inFlow))

/-- A token that may begin a key, and after which none may. -/
def named? (s : Scanner) (read : Cursor → Option (Token × Cursor)) : Option Scanner :=
  s.rememberKey?.bind fun s =>
    (read s.cursor).map fun (t, cursor) => { s with cursor, keyAllowed := false }.emit t

/-- A block scalar. -/
def blockScalar? (s : Scanner) (literal : Bool) : Option Scanner :=
  s.forgetKey?.bind fun s =>
    (readBlock? literal s.indent s.cursor).map fun (value, cursor) =>
      { s with cursor, keyAllowed := true }.emit (.scalar value false)

/-- A plain scalar. -/
def plainScalar? (s : Scanner) : Option Scanner :=
  s.rememberKey?.bind fun s =>
    (readPlain? s.inFlow (s.indent + 1).toNat s.cursor).map fun (value, broken, cursor) =>
      { s with cursor, keyAllowed := broken }.emit (.scalar value true)

/-- Whether a plain scalar may begin with the next character. -/
def plainMayBegin (s : Scanner) (x : Char) : Bool :=
  let next := s.cursor.ahead 1
  !isSpaceTab x && !("-?:,[]\x7b\x7d#&*!|>'\"%@\x60".toList.contains x) ||
    (x = '-' && !isGapAt next) ||
    (!s.inFlow && (x = '?' || x = ':') && !isGapOrEnd next)

/-- Reads the token that begins with the next character. -/
def readToken? (s : Scanner) (x : Char) : Option Scanner :=
  let c := s.cursor
  let gap := isGapOrEnd (c.ahead 1)
  if c.column = 0 ∧ x = '%' then
    (s.closeBlocks (-1)).forgetKey?.bind fun s =>
      (readDirective? s.cursor).map fun (t, cursor) => { s with cursor, keyAllowed := false }.emit t
  else if c.seesTriple '-' then s.documentMark? .documentStart
  else if c.seesTriple '.' then s.documentMark? .documentEnd
  else if x = '[' then s.openFlow? .flowSequenceStart
  else if x = '\x7b' then s.openFlow? .flowMappingStart
  else if x = ']' then s.closeFlow? .flowSequenceEnd
  else if x = '\x7d' then s.closeFlow? .flowMappingEnd
  else if x = ',' then s.forgetKey?.map fun s => s.mark .flowEntry 1 true
  else if x = '-' ∧ gap then s.blockEntry?
  else if x = '?' ∧ (s.inFlow ∨ gap) then s.key?
  else if x = ':' ∧ (s.inFlow ∨ gap) then s.value?
  else if x = '*' then s.named? fun c => (readName? c.skip).map fun p => (.alias_ p.1, p.2)
  else if x = '&' then s.named? fun c => (readName? c.skip).map fun p => (.anchor p.1, p.2)
  else if x = '!' then s.named? (readTag? s.inFlow)
  else if x = '|' ∧ !s.inFlow then s.blockScalar? true
  else if x = '>' ∧ !s.inFlow then s.blockScalar? false
  else if x = '\'' then
    s.named? fun c => (readQuoted? true c).map fun p => (.scalar p.1 false, p.2)
  else if x = '"' then
    s.named? fun c => (readQuoted? false c).map fun p => (.scalar p.1 false, p.2)
  else if s.plainMayBegin x then s.plainScalar?
  else none

/-- Closes what is open at the end of the text. -/
def finish? (s : Scanner) : Option Scanner :=
  let c := s.cursor
  let s :=
    if c.column = 0 then s else { s with cursor := { c with column := 0, line := c.line + 1 } }
  (s.closeBlocks (-1)).forgetKey?

/-- Reads tokens up to the end of the text. -/
def run? : Nat → Scanner → Option Scanner
  | 0, _ => none
  | fuel + 1, s =>
    let s := skipGaps (s.cursor.rest.length + 1) s
    s.dropStale?.bind fun s =>
      let s := s.closeBlocks s.cursor.column
      match s.cursor.peek with
      | none => s.finish?
      | some x => (s.readToken? x).bind (run? fuel)

end Scanner

/-- The tokens of a text; none if it has a character that no text may hold, or a malformed one. -/
def tokens? (t : Text) : Option (List Token) :=
  if t.all isAllowed then
    (Scanner.run? (t.length + 2) { cursor := Cursor.ofText t }).map fun s => s.tokens.reverse
  else none

end NotePress.Yaml
