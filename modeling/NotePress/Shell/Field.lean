import NotePress.Shell.Pattern

/-!
# Fields

An expanded word is a row of marks. It is taken apart into fields at separators that come from
expansions: blanks among the separators count together, and every other one ends a field of its own.
-/

namespace NotePress.Shell

/-- A part of an expanded word. -/
inductive Mark where
  /-- An octet, and whether it may separate fields. -/
  | letter (l : Letter) (splits : Bool)
  /-- Quotes, which make a field even if nothing is in them. -/
  | quotes
  /-- The border between two arguments that stay apart. -/
  | border
  /-- The border between two arguments that are taken apart further. -/
  | gap
  /-- The end of arguments that stay apart. -/
  | arguments
  /-- The beginning of a value that may be split. -/
  | region
  deriving DecidableEq, Repr

/-- The marks of a text that may be split unless it is quoted. -/
def marksOf (quoted splits : Bool) (t : Text) : List Mark :=
  t.map fun c => .letter ⟨c, quoted⟩ (splits && !quoted)

/-- The marks of a value. -/
def valueOf (quoted : Bool) (t : Text) : List Mark :=
  (if quoted then [] else [.region]) ++ marksOf quoted true t

/-- A blank that counts together with others if it separates fields. -/
def isSeparatorBlank (c : Char) : Bool := c = ' ' || c = '\t' || c = '\n'

/-- What was passed over in front of a field. -/
inductive Passed where
  | nothing
  /-- Blanks behind a field; one other separator among them does not count. -/
  | blanks
  /-- Another separator, with blanks. -/
  | separator
  deriving DecidableEq, Repr

/-- Where a mark stands with regard to arguments that stay apart. In the first value behind them
blanks do not count together. -/
inductive Region where
  | plain
  /-- Behind arguments, in front of the next value. -/
  | behind
  /-- In the first value behind arguments. -/
  | strict
  deriving DecidableEq, Repr

/-- Takes marks apart into fields, given where they stand, the field being read, and what was passed
over. -/
def splitFrom (separators : Text) : Region → Option (List Letter) → Passed → List Mark →
    List (List Letter)
  | _, field, _, [] => (field.map List.reverse).toList
  | r, field, _, .quotes :: rest => splitFrom separators r (some (field.getD [])) .nothing rest
  | r, field, _, .border :: rest =>
    (field.getD []).reverse :: splitFrom separators r none .nothing rest
  | r, field, passed, .gap :: rest =>
    match field with
    | some f => f.reverse :: splitFrom separators r none .blanks rest
    | none => splitFrom separators r none passed rest
  | _, field, passed, .arguments :: rest => splitFrom separators .behind field passed rest
  | r, field, passed, .region :: rest =>
    splitFrom separators (if r = .behind then .strict else .plain) field passed rest
  | r, field, passed, .letter l splits :: rest =>
    if splits && separators.contains l.char then
      let isBlank := isSeparatorBlank l.char && r ≠ .strict
      match field with
      | some f =>
        f.reverse :: splitFrom separators r none (if isBlank then .blanks else .separator) rest
      | none =>
        if isBlank then splitFrom separators r none passed rest
        else if passed = .blanks then splitFrom separators r none .separator rest
        else [] :: splitFrom separators r none .separator rest
    else splitFrom separators r (some (l :: field.getD [])) .nothing rest

/-- The fields of marks. -/
def splitFields (separators : Text) (marks : List Mark) : List (List Letter) :=
  splitFrom separators .plain none .nothing marks

/-- The letters of marks that are not taken apart. -/
def lettersOf (marks : List Mark) : List Letter :=
  marks.filterMap fun m => match m with
    | .letter l _ => some l
    | _ => none

/-- The text of letters. -/
def textOf (letters : List Letter) : Text := letters.map (·.char)

/-! ### The fields of a line -/

/-- The separators behind which the rest of a line holds nothing more, if there are any: blanks, and
at most one other separator in front of them. -/
def endsLine (separators : Text) (line : List Letter) : Bool :=
  let isSeparator := fun (l : Letter) => !l.quoted && separators.contains l.char
  let isBlank := fun (l : Letter) => isSeparator l && isSeparatorBlank l.char
  match line.dropWhile isBlank with
  | [] => true
  | l :: rest => isSeparator l && (rest.dropWhile isBlank).isEmpty

/-- What is left of a line for its last field: without blanks at the end, and without the separator
that ends its only field. -/
def lastField (separators : Text) (line : List Letter) : List Letter :=
  let isSeparator := fun (l : Letter) => !l.quoted && separators.contains l.char
  let field := line.takeWhile fun l => !isSeparator l
  if endsLine separators (line.drop field.length) then field
  else (line.reverse.dropWhile fun l => isSeparator l && isSeparatorBlank l.char).reverse

/-- Takes a line apart into at most `count` fields; the last one takes what is left. -/
def lineFields (separators : Text) : (count : Nat) → List Letter → List (List Letter)
  | 0, _ => []
  | count + 1, line =>
    let isSeparator := fun (l : Letter) => !l.quoted && separators.contains l.char
    let isBlank := fun (l : Letter) => isSeparator l && isSeparatorBlank l.char
    let line := line.dropWhile isBlank
    if line = [] then []
    else if count = 0 then [lastField separators line]
    else
      let field := line.takeWhile fun l => !isSeparator l
      let rest := (line.drop field.length).dropWhile isBlank
      let rest := match rest with
        | l :: more => if isSeparator l then more else rest
        | [] => []
      field :: lineFields separators count rest

end NotePress.Shell
