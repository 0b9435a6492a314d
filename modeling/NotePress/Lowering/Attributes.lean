import NotePress.Text.Scan

/-!
# Attribute blocks

The inside of `{…}` behind an embed, or in the info string of a fence: a label `#name`, a class
`.name`, a quoted caption, and sizes. Labels, classes and sizes are looked for outside captions, and
each stands at the start or behind a blank. The first label, class and caption count, and the last
size that is not empty.
-/

namespace NotePress

/-- What an attribute block says. -/
structure Attributes where
  label : Option Text := none
  className : Option Text := none
  caption : Option Text := none
  width : Option Text := none
  height : Option Text := none
  deriving DecidableEq, Repr

namespace Attributes

/-- Tries a reader at the start of the block or behind a blank, which it then takes. -/
def behindBlank {α : Type} (read : Text → Option (α × Text)) : Recogniser α := fun before t =>
  let here := if before.isNone then read t else none
  match here with
  | some (a, after) => some (t.length - after.length, a)
  | none =>
    match t with
    | c :: rest =>
      if isBlank c then (read rest).map fun p => (t.length - p.2.length, p.1) else none
    | [] => none

/-- Reads one or more characters of a class behind a mark. -/
def readMarked? (mark : Char) (inner : Char → Bool) : Text → Option (Text × Text)
  | c :: rest =>
    if c = mark then
      match rest.takeWhile inner with
      | [] => none
      | name => some (name, rest.dropWhile inner)
    else none
  | [] => none

/-- Reads `key =` with blanks around the sign. -/
def readKey? (key t : Text) : Option Text :=
  (Text.dropOpening? key t).bind fun rest =>
    match Text.trimStart rest with
    | '=' :: value => some (Text.trimStart value)
    | _ => none

/-- Reads a value in the given quotes: its inside and what follows. -/
def readQuoted? (quote : Char) : Text → Option (Text × Text)
  | c :: rest =>
    if c = quote then
      match rest.dropWhile (· ≠ quote) with
      | _ :: after => some (rest.takeWhile (· ≠ quote), after)
      | [] => none
    else none
  | [] => none

/-- Reads `caption="…"` or `caption='…'`. -/
def readCaption? (t : Text) : Option (Text × Text) :=
  (readKey? "caption".toList t).bind fun value =>
    match readQuoted? '"' value with
    | some found => some found
    | none => readQuoted? '\'' value

/-- Reads a size: in double quotes, which stay, or without blanks and double quotes. -/
def readSizeValue? (t : Text) : Option (Text × Text) :=
  match readQuoted? '"' t with
  | some (inner, after) => some ('"' :: inner ++ ['"'], after)
  | none =>
    let inner := fun c => !isBlank c && c ≠ '"'
    match t.takeWhile inner with
    | [] => none
    | value => some (value, t.dropWhile inner)

/-- Reads `width=…` or `height=…`; the flag says whether it is the width. -/
def readSize? (t : Text) : Option ((Bool × Text) × Text) :=
  let sizeOf := fun (isWidth : Bool) (key : Text) =>
    ((readKey? key t).bind readSizeValue?).map fun p => ((isWidth, p.1), p.2)
  match sizeOf true "width".toList with
  | some found => some found
  | none => sizeOf false "height".toList

/-- A character of a class name. -/
def isClassChar (c : Char) : Bool := c.isAlphanum || c = '_' || c = '+' || c = '#' || c = '-'

/-- A character of a label. -/
def isLabelChar (c : Char) : Bool := !isBlank c && c ≠ '\x7d'

/-- Sets a size unless it is empty. -/
def setSize (a : Attributes) (isWidth : Bool) (value : Text) : Attributes :=
  let value := Text.dropTail (· = '"') (value.dropWhile (· = '"'))
  if value = [] then a
  else if isWidth then { a with width := some value }
  else { a with height := some value }

/-- Reads the inside of an attribute block. -/
def parse (block : Text) : Attributes :=
  let captions := block.scan (behindBlank readCaption?)
  let bare := block.splice (captions.map fun h => (h.span, [' ']))
  let labels := bare.scan (behindBlank (readMarked? '#' isLabelChar))
  let classes := bare.scan (behindBlank (readMarked? '.' isClassChar))
  let sizes := bare.scan (behindBlank readSize?)
  sizes.foldl (fun a h => a.setSize h.value.1 h.value.2)
    { label := labels.head?.map (·.value), className := classes.head?.map (·.value),
      caption := captions.head?.map (·.value) }

end Attributes

end NotePress
