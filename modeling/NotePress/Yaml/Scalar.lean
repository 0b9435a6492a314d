import NotePress.Yaml.Cursor

/-!
# Scalars of a YAML text

Plain, quoted and block scalars as they stand in a text. A single line break inside a flow scalar
is a space, and further ones are kept; a block scalar keeps or folds its breaks and chops those at
its end. Every reader is given fuel that the characters left bound.
-/

namespace NotePress.Yaml

/-- The blanks and breaks met since the last character of a flow scalar. -/
structure Spacing where
  /-- Blanks on the line, before any break. -/
  blanks : Text := []
  /-- The first break. -/
  firstBreak : Text := []
  /-- The breaks after it. -/
  laterBreaks : Text := []
  /-- Whether a break was met. -/
  broken : Bool := false
  deriving Repr

/-- What spacing stands for between two parts of a scalar. -/
def Spacing.fold (s : Spacing) : Text :=
  if s.broken then
    if s.firstBreak = ['\n'] then (if s.laterBreaks = [] then [' '] else s.laterBreaks)
    else s.firstBreak ++ s.laterBreaks
  else s.blanks

/-- Adds a break to the spacing. -/
def Spacing.addBreak (s : Spacing) (b : Text) : Spacing :=
  if s.broken then { s with laterBreaks := s.laterBreaks ++ b }
  else { s with blanks := [], firstBreak := b, broken := true }

/-- Adds a blank to the spacing; behind a break it is indentation. -/
def Spacing.addBlank (s : Spacing) (b : Char) : Spacing :=
  if s.broken then s else { s with blanks := s.blanks ++ [b] }

/-- Reads blanks and breaks. Tabs are refused in the indentation left of column `tabLimit`. -/
def readSpacing? (tabLimit : Nat) : Nat → Spacing → Cursor → Option (Spacing × Cursor)
  | 0, s, c => some (s, c)
  | fuel + 1, s, c =>
    match c.peek with
    | none => some (s, c)
    | some x =>
      if isSpaceTab x then
        if s.broken ∧ x = '\t' ∧ c.column < tabLimit then none
        else readSpacing? tabLimit fuel (s.addBlank x) c.skip
      else if isBreak x then
        let (b, c) := c.takeBreak
        readSpacing? tabLimit fuel (s.addBreak b) c
      else some (s, c)

/-! ### Plain scalars -/

/-- Whether a plain scalar ends in front of the next character; `none` is an error. -/
def plainEnds? (inFlow : Bool) (c : Cursor) : Option Bool :=
  match c.peek with
  | none => some true
  | some x =>
    if isSpaceTab x ∨ isBreak x then some true
    else if inFlow ∧ x = ':' ∧ (c.ahead 1).any (fun y => ",?[]\x7b\x7d".toList.contains y) then none
    else if x = ':' ∧ isGapOrEnd (c.ahead 1) then some true
    else some (inFlow && ",[]\x7b\x7d".toList.contains x)

/-- Reads a run of a plain scalar without gaps; the result is reversed onto `done`. -/
def readPlainRun? (inFlow : Bool) : Nat → Text → Cursor → Option (Text × Cursor)
  | 0, done, c => some (done, c)
  | fuel + 1, done, c =>
    match plainEnds? inFlow c with
    | none => none
    | some true => some (done, c)
    | some false => readPlainRun? inFlow fuel (c.peek.toList ++ done) c.skip

/-- Reads a plain scalar, given what of it was read (reversed) and the spacing behind that. The
flag says whether it ended behind a break. -/
def readPlainFrom? (inFlow : Bool) (indent : Nat) :
    Nat → Text → Spacing → Cursor → Option (Text × Bool × Cursor)
  | 0, done, s, c => some (done.reverse, s.broken, c)
  | fuel + 1, done, s, c =>
    if c.seesDocumentMark ∨ c.sees '#' then some (done.reverse, s.broken, c)
    else
      match readPlainRun? inFlow (c.rest.length + 1) [] c with
      | none => none
      | some (run, after) =>
        let (done, s) := if run = [] then (done, s) else (run ++ s.fold.reverse ++ done, {})
        if isGapAt after.peek ∨ isBreakAt after.peek then
          match readSpacing? indent (after.rest.length + 1) s after with
          | none => none
          | some (s, c) =>
            if !inFlow ∧ c.column < indent then some (done.reverse, s.broken, c)
            else readPlainFrom? inFlow indent fuel done s c
        else some (done.reverse, s.broken, after)

/-- Reads a plain scalar in a block indented by `indent` columns or in a flow. -/
def readPlain? (inFlow : Bool) (indent : Nat) (c : Cursor) : Option (Text × Bool × Cursor) :=
  readPlainFrom? inFlow indent (c.rest.length + 1) [] {} c

/-! ### Quoted scalars -/

/-- The value of so many hexadecimal digits. -/
def readHex? (n : Nat) (t : Text) : Option Nat :=
  let digits := t.take n
  if digits.length = n then
    digits.foldl (fun acc x => acc.bind fun v =>
      if x.isDigit then some (v * 16 + (x.toNat - '0'.toNat))
      else if 'a' ≤ x ∧ x ≤ 'f' then some (v * 16 + (x.toNat - 'a'.toNat + 10))
      else if 'A' ≤ x ∧ x ≤ 'F' then some (v * 16 + (x.toNat - 'A'.toNat + 10))
      else none) (some 0)
  else none

/-- A character escaped by its number. -/
def charOf? (n : Nat) : Option Char := if n.isValidChar then some (Char.ofNat n) else none

/-- Reads an escape behind its backslash. -/
def readEscape? (c : Cursor) : Option (Char × Cursor) :=
  let named := fun (x : Char) => some (x, c.skip)
  let numbered := fun (n : Nat) =>
    ((readHex? n c.skip.rest).bind charOf?).map fun x => (x, c.skips (n + 1))
  match c.peek with
  | some '0' => named '\x00'
  | some 'a' => named '\x07'
  | some 'b' => named '\x08'
  | some 't' => named '\t'
  | some '\t' => named '\t'
  | some 'n' => named '\n'
  | some 'v' => named '\x0b'
  | some 'f' => named '\x0c'
  | some 'r' => named '\r'
  | some 'e' => named '\x1b'
  | some ' ' => named ' '
  | some '"' => named '"'
  | some '/' => named '/'
  | some '\\' => named '\\'
  | some 'N' => named '\u0085'
  | some '_' => named '\u00a0'
  | some 'L' => named '\u2028'
  | some 'P' => named '\u2029'
  | some 'x' => numbered 2
  | some 'u' => numbered 4
  | some 'U' => numbered 8
  | _ => none

/-- Reads a run of a quoted scalar without gaps onto `done`; the flag says whether it ended at an
escaped break, which joins the lines without a space. -/
def readQuotedRun? (single : Bool) : Nat → Text → Cursor → Option (Text × Bool × Cursor)
  | 0, done, c => some (done, false, c)
  | fuel + 1, done, c =>
    match c.peek with
    | none => some (done, false, c)
    | some x =>
      if isSpaceTab x ∨ isBreak x then some (done, false, c)
      else if single then
        if x = '\'' then
          if c.ahead 1 = some '\'' then readQuotedRun? single fuel ('\'' :: done) (c.skips 2)
          else some (done, false, c)
        else readQuotedRun? single fuel (x :: done) c.skip
      else if x = '"' then some (done, false, c)
      else if x = '\\' then
        if isBreakAt (c.ahead 1) then some (done, true, c.skip.takeBreak.2)
        else
          match readEscape? c.skip with
          | none => none
          | some (e, c) => readQuotedRun? single fuel (e :: done) c
      else readQuotedRun? single fuel (x :: done) c.skip

/-- Reads a quoted scalar behind its opening quote. -/
def readQuotedFrom? (single : Bool) : Nat → Text → Cursor → Option (Text × Cursor)
  | 0, _, _ => none
  | fuel + 1, done, c =>
    if c.seesDocumentMark ∨ c.peek.isNone then none
    else
      match readQuotedRun? single (c.rest.length + 1) done c with
      | none => none
      | some (done, escapedBreak, c) =>
        if c.sees (if single then '\'' else '"') then some (done.reverse, c.skip)
        else
          match readSpacing? 0 (c.rest.length + 1) { broken := escapedBreak } c with
          | none => none
          | some (s, c) => readQuotedFrom? single fuel (s.fold.reverse ++ done) c

/-- Reads a quoted scalar at its opening quote. -/
def readQuoted? (single : Bool) (c : Cursor) : Option (Text × Cursor) :=
  readQuotedFrom? single (c.rest.length + 1) [] c.skip

/-! ### Block scalars -/

/-- What happens to the breaks at the end of a block scalar. -/
inductive Chomping where
  | strip
  | clip
  | keep
  deriving DecidableEq, Repr

/-- The head of a block scalar: whether breaks are kept as they are, what happens at its end, and
how far it is indented, if it says so. -/
structure BlockHead where
  literal : Bool
  chomping : Chomping
  increment : Option Nat
  deriving Repr

/-- Reads a chomping mark. -/
def readChomping? (c : Cursor) : Option (Chomping × Cursor) :=
  match c.peek with
  | some '+' => some (.keep, c.skip)
  | some '-' => some (.strip, c.skip)
  | _ => none

/-- Reads an indentation digit; zero is refused. -/
def readIncrement? (c : Cursor) : Option (Option Nat × Cursor) :=
  match c.peek with
  | some x =>
    if x.isDigit then if x = '0' then none else some (some (x.toNat - '0'.toNat), c.skip)
    else some (none, c)
  | none => some (none, c)

/-- Reads the marks behind `|` or `>`, in either order. -/
def readBlockMarks? (literal : Bool) (c : Cursor) : Option (BlockHead × Cursor) :=
  match readChomping? c with
  | some (chomping, c) => (readIncrement? c).map fun p => (⟨literal, chomping, p.1⟩, p.2)
  | none =>
    match readIncrement? c with
    | none => none
    | some (none, c) => some (⟨literal, .clip, none⟩, c)
    | some (increment, c) =>
      match readChomping? c with
      | some (chomping, c) => some (⟨literal, chomping, increment⟩, c)
      | none => some (⟨literal, .clip, increment⟩, c)

/-- Reads empty lines and the indentation of the next one. The indentation is `indent`, or as far as
the lines go if it is not known; the greatest column met is kept in `widest`. -/
def readBlockBreaks? (indent : Option Nat) :
    Nat → Nat → Text → Cursor → Option (Nat × Text × Cursor)
  | 0, widest, breaks, c => some (widest, breaks, c)
  | fuel + 1, widest, breaks, c =>
    let isIndent := fun (column : Nat) => indent.all fun n => column < n
    let spaces := (c.rest.takeWhile (· = ' ')).length
    let taken := match indent with
      | none => spaces
      | some n => min spaces (n - c.column)
    let c := c.skips taken
    let widest := max widest c.column
    if isIndent c.column ∧ c.sees '\t' then none
    else if isBreakAt c.peek then
      let (b, c) := c.takeBreak
      readBlockBreaks? indent fuel widest (breaks ++ b) c
    else some (widest, breaks, c)

/-- The state of a block scalar between lines. -/
structure BlockLines where
  /-- The value so far, reversed. -/
  done : Text
  /-- The break of the last line. -/
  lineBreak : Text
  /-- The breaks of the empty lines after it. -/
  emptyLines : Text
  /-- Whether the last line opened with a blank. -/
  indented : Bool

/-- Reads the lines of a block scalar. -/
def readBlockLines? (literal : Bool) (indent : Nat) :
    Nat → BlockLines → Cursor → Option (BlockLines × Cursor)
  | 0, s, c => some (s, c)
  | fuel + 1, s, c =>
    if c.column ≠ indent ∨ c.peek.isNone then some (s, c)
    else
      let opensBlank := isGapAt c.peek
      let joined :=
        if !literal ∧ s.lineBreak = ['\n'] ∧ !s.indented ∧ !opensBlank then
          if s.emptyLines = [] then [' '] else []
        else s.lineBreak
      let (line, c) := c.takeWhile fun x => !isBreak x
      let done := line.reverse ++ s.emptyLines.reverse ++ joined.reverse ++ s.done
      let (lineBreak, c) := c.takeBreak
      match readBlockBreaks? (some indent) (c.rest.length + 1) 0 [] c with
      | none => none
      | some (_, emptyLines, c) =>
        readBlockLines? literal indent fuel ⟨done, lineBreak, emptyLines, opensBlank⟩ c

/-- The value of a block scalar with its end chomped. -/
def BlockLines.value (s : BlockLines) (chomping : Chomping) : Text :=
  s.done.reverse ++
    (if chomping = .strip then [] else s.lineBreak) ++ if chomping = .keep then s.emptyLines else []

/-- Reads a block scalar at its `|` or `>`, in a block indented to column `parent` (less than zero
outside of any). -/
def readBlock? (literal : Bool) (parent : Int) (c : Cursor) : Option (Text × Cursor) :=
  match readBlockMarks? literal c.skip with
  | none => none
  | some (head, c) =>
    let c := c.dropWhile isSpaceTab
    let c := if c.sees '#' then c.dropWhile fun x => !isBreak x else c
    if !isBreakOrEnd c.peek then none
    else
      let c := c.takeBreak.2
      let known := head.increment.map fun n => if 0 ≤ parent then parent.toNat + n else n
      match readBlockBreaks? known (c.rest.length + 1) 0 [] c with
      | none => none
      | some (widest, emptyLines, c) =>
        let indent := known.getD (max widest (max (parent + 1).toNat 1))
        (readBlockLines? literal indent (c.rest.length + 1) ⟨[], [], emptyLines, false⟩ c).map
          fun p => (p.1.value head.chomping, p.2)

end NotePress.Yaml
