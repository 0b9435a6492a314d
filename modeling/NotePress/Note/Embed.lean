import NotePress.Note.Fence

/-!
# Embeds in a note

An embed is `![[reference]]` on one line, and a note image is `![alt](target)`. Blanks and quote
marks in front of either, with at least one quote mark among them, belong to it when they open a
line: they quote what is put in its place.
-/

namespace NotePress

/-- An embed or a note image as it stands in the text. -/
structure Embed where
  /-- The quote prefix in front; empty if there is none. -/
  quote : Text
  /-- The inside of the brackets. -/
  inner : Text
  deriving DecidableEq, Repr

/-- The quote prefix that a position opens, if it opens a line and has a quote mark. -/
def quoteAt (before : Option Char) (t : Text) : Text :=
  let run := t.takeWhile isQuoteChar
  if Text.opensLine before ∧ '>' ∈ run then run else []

/-- Reads `![[reference]]`: the reference and what follows. -/
def readBrackets? : Text → Option (Text × Text)
  | '!' :: '[' :: '[' :: rest =>
    let isInner := fun c => c ≠ '[' ∧ c ≠ ']' ∧ c ≠ '\n'
    match rest.takeWhile isInner, rest.dropWhile isInner with
    | c :: cs, ']' :: ']' :: after => some (c :: cs, after)
    | _, _ => none
  | _ => none

/-- Reads an attribute block `{…}` on one line: its inside and what follows. -/
def readBraces? : Text → Option (Text × Text)
  | '\x7b' :: rest =>
    let isInner := fun c => c ≠ '\x7b' ∧ c ≠ '\x7d' ∧ c ≠ '\n'
    match rest.dropWhile isInner with
    | '\x7d' :: after => some (rest.takeWhile isInner, after)
    | _ => none
  | _ => none

/-- Recognises an embed. -/
def recogniseEmbed : Recogniser Embed := fun before t =>
  let quote := quoteAt before t
  (readBrackets? (t.drop quote.length)).map fun p => (t.length - p.2.length, ⟨quote, p.1⟩)

/-- Recognises an embed together with an attribute block right behind it. -/
def recogniseAttributedEmbed : Recogniser (Embed × Option Text) := fun before t =>
  let quote := quoteAt before t
  (readBrackets? (t.drop quote.length)).map fun (inner, after) =>
    match readBraces? after with
    | some (block, after) => (t.length - after.length, ⟨quote, inner⟩, some block)
    | none => (t.length - after.length, ⟨quote, inner⟩, none)

/-- Reads the target of an image: in angle brackets, else without blanks and parentheses. -/
def readDestination? (t : Text) : Option (Text × Text) :=
  let angled? : Option (Text × Text) :=
    match t with
    | '<' :: rest =>
      let isInner := fun c => c ≠ '<' ∧ c ≠ '>' ∧ c ≠ '\n'
      match rest.takeWhile isInner, rest.dropWhile isInner with
      | c :: cs, '>' :: ')' :: after => some ('<' :: c :: cs ++ ['>'], after)
      | _, _ => none
    | _ => none
  match angled? with
  | some found => some found
  | none =>
    let isInner := fun c => c ≠ '(' ∧ c ≠ ')' ∧ ¬ isBlank c = true
    match t.takeWhile isInner, t.dropWhile isInner with
    | c :: cs, ')' :: after => some (c :: cs, after)
    | _, _ => none

/-- Reads `![alt](target)`: alt text, target, and what follows. -/
def readImage? : Text → Option (Text × Text × Text)
  | '!' :: '[' :: rest =>
    let isAlt := fun c => c ≠ '[' ∧ c ≠ ']' ∧ c ≠ '\n'
    match rest.dropWhile isAlt with
    | ']' :: '(' :: after =>
      (readDestination? after).map fun p => (rest.takeWhile isAlt, p.1, p.2)
    | _ => none
  | _ => none

/-- Recognises a note image; the target stands beside it. -/
def recogniseImage : Recogniser (Embed × Text) := fun before t =>
  let quote := quoteAt before t
  (readImage? (t.drop quote.length)).map fun (alt, target, after) =>
    (t.length - after.length, ⟨quote, alt⟩, target)

/-- The embeds of a text, those in code fences included. -/
def Text.embeds (t : Text) : List (Hit Embed) := t.scan recogniseEmbed

/-- The embeds of a text that stand outside its code fences. -/
def Text.openEmbeds (t : Text) : List (Hit Embed) :=
  let fences := t.fences
  t.embeds.filter fun e => !isFenced fences e.span.start

end NotePress
