import NotePress.Text.Digit
import NotePress.Text.Basic
import NotePress.Note.Section

/-!
# Link references

The inside of `[[…]]` reads `target#Heading|alias`, `target#^block|alias` or `target^block`. It is
cut at the first `|`, then at the first `#`, then at the first `^`. An alias of the form `300` or
`300x200` is a size in pixels. `Reference.render` writes the target and the part, as warnings show
them.
-/

namespace NotePress

/-- A display size in pixels. -/
structure DisplaySize where
  width : Nat
  height : Option Nat
  deriving DecidableEq, Repr

/-- Sizes are below this bound. -/
def sizeBound : Nat := Nat.pow 2 32

/-- Reads `300` or `300x200`. Digits of any script make an alias numeric; a width that is no number
below the bound makes it text again, such a height is dropped. -/
def DisplaySize.read? (shown : Text) : Option DisplaySize :=
  let width := shown.takeWhile isDecimalDigit
  let heightDigits? : Option (Option Text) :=
    match shown.dropWhile isDecimalDigit with
    | [] => some none
    | 'x' :: digits =>
      if digits ≠ [] ∧ digits.all isDecimalDigit = true then some (some digits) else none
    | _ => none
  match heightDigits? with
  | none => none
  | some height =>
    (readNatBelow? sizeBound width).map fun w => ⟨w, height.bind (readNatBelow? sizeBound)⟩

/-- A parsed reference. -/
structure Reference where
  /-- A path or a name, trimmed and not empty. -/
  target : Text
  /-- The text behind the bar, unless it is a size. -/
  shown : Option Text
  heading : Option Text
  block : Option Text
  size : Option DisplaySize
  deriving DecidableEq, Repr

/-- What a fragment behind `#` asks for: a block id behind `^`, else the innermost heading. -/
def readFragment (fragment : Text) : Option Text × Option Text :=
  match fragment.trim with
  | '^' :: block => (none, Text.unlessBlank? block)
  | heading => (Text.unlessBlank? (heading.afterLast '#'), none)

/-- Cuts a reference without its alias into target, heading and block id. A `^` in the target
counts only if the fragment named no block. -/
def readTarget (head : Text) : Text × Option Text × Option Text :=
  let (target, heading, block) :=
    match head.cutAt? '#' with
    | some (target, fragment) => (target, readFragment fragment)
    | none => (head, none, none)
  match block, target.cutAt? '^' with
  | none, some (before, after) => (before, heading, after.unlessBlank?)
  | _, _ => (target, heading, block)

/-- Parses the inside of `[[…]]`; none if the target is blank. -/
def Reference.parse? (raw : Text) : Option Reference :=
  let (head, shown) :=
    match raw.cutAt? '|' with
    | some (head, shown) => (head, shown.unlessBlank?)
    | none => (raw, none)
  let size := shown.bind DisplaySize.read?
  let (target, heading, block) := readTarget head
  target.unlessBlank?.map fun target =>
    ⟨target, if size.isSome then none else shown, heading, block, size⟩

/-- The target and the part, as `target#Heading` and `target#^block`. -/
def Reference.render (r : Reference) : Text :=
  r.target ++ (r.heading.map ('#' :: ·)).getD [] ++ (r.block.map ('#' :: '^' :: ·)).getD []

/-- The part of the target that is meant; a heading goes before a block. -/
def Reference.part (r : Reference) : Part :=
  match r.heading, r.block with
  | some heading, _ => .under heading
  | none, some block => .block block
  | none, none => .whole

/-- The name of the part, as warnings show it. -/
def Part.name? : Part → Option Text
  | .whole => none
  | .under heading => some heading
  | .block id => some ('^' :: id)

end NotePress
