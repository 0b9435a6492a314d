import NotePress.Text.Digit
import NotePress.Text.Scan
import NotePress.Text.Word

/-!
# Diagnostics

A TeX engine reports a line as `l.<number> <what it read>`. The engine's text starts with the
preamble, so a reported line is moved back by the preamble's number of lines; what falls into the
preamble is left out.
-/

namespace NotePress

/-- A problem that the compiler reported, on a line of the note. -/
structure Diagnostic where
  line : Nat
  message : Text
  deriving DecidableEq, Repr

namespace Diagnostic

/-- A report as it stands in the compiler's messages: the digits of its line and the rest. -/
structure Report where
  digits : Text
  message : Text
  deriving DecidableEq, Repr

/-- Whether a character ends a line of messages. -/
def endsLine (c : Char) : Bool := c = '\n' || c = '\r'

/-- Recognises `l.<digits> <message>` up to the end of the line, where no word is going on. -/
def recogniseReport : Recogniser Report := fun before t =>
  if before.any isWordChar then none
  else
    match t with
    | 'l' :: '.' :: t =>
      let digits := t.takeWhile isDecimalDigit
      let afterDigits := t.dropWhile isDecimalDigit
      let gap := afterDigits.takeWhile isSpaceTab
      let message := (afterDigits.dropWhile isSpaceTab).takeWhile fun c => !endsLine c
      if digits = [] ∨ gap = [] then none
      else some (2 + digits.length + gap.length + message.length, ⟨digits, message⟩)
    | _ => none

/-- Line numbers are below this bound. -/
def lineBound : Nat := Nat.pow 2 64

/-- The diagnostic of a report, if its line is in the note. -/
def ofReport (headerLines : Nat) (r : Report) : Option Diagnostic :=
  match readNatBelow? lineBound r.digits with
  | some line => if headerLines < line then some ⟨line - headerLines, r.message.trimEnd⟩ else none
  | none => none

/-- The diagnostics in a compiler's messages, in order. -/
def parse (messages : Text) (headerLines : Nat) : List Diagnostic :=
  (messages.scan recogniseReport).filterMap fun h => ofReport headerLines h.value

end Diagnostic

end NotePress
