import NotePress.Text.Basic
import NotePress.Text.Utf8

/-!
# Scanning for constructs

A scan walks a text from left to right and asks a recogniser at every position that no earlier hit
covers. The recogniser sees the character in front of the position (none at the start of the text)
and the rest of the text, and answers with the number of characters it takes. Hits come in order
and do not overlap.
-/

namespace NotePress

/-- A part of a text, as the positions of its first character and of the character after it. -/
structure Span where
  start : Nat
  stop : Nat
  deriving DecidableEq, Repr

/-- Whether a position lies in the part. -/
def Span.contains (s : Span) (p : Nat) : Bool := s.start ≤ p && p < s.stop

/-- The part of `t` measured in bytes instead of characters. -/
def Span.bytes (t : Text) (s : Span) : Span :=
  ⟨Text.byteLength (t.take s.start), Text.byteLength (t.take s.stop)⟩

/-- What a recogniser found, and where. -/
structure Hit (α : Type) where
  span : Span
  value : α
  deriving Repr

/-- Recognises a construct at a position: how many characters it takes, and what it says. -/
abbrev Recogniser (α : Type) := Option Char → Text → Option (Nat × α)

namespace Text

/-- Scans the rest of a text from position `at`, of which the next `skip` characters belong to
the last hit. -/
def scanFrom {α : Type} (recognise : Recogniser α) :
    Option Char → Nat → Nat → Text → List (Hit α)
  | _, _, _, [] => []
  | _, skip + 1, pos, c :: cs => scanFrom recognise (some c) skip (pos + 1) cs
  | before, 0, pos, c :: cs =>
    match recognise before (c :: cs) with
    | some (n, a) =>
      ⟨⟨pos, pos + n⟩, a⟩ :: scanFrom recognise (some c) (n - 1) (pos + 1) cs
    | none => scanFrom recognise (some c) 0 (pos + 1) cs

/-- All hits of a recogniser, in order. -/
def scan {α : Type} (recognise : Recogniser α) (t : Text) : List (Hit α) :=
  scanFrom recognise none 0 0 t

/-- Whether the character in front of a position ends a line. -/
def opensLine : Option Char → Bool
  | none => true
  | some c => c = '\n'

/-- Puts replacements for some parts of a text into it; the parts are in order and apart, and
`pos` is the first position that is not yet written. -/
def spliceFrom (t : Text) : Nat → List (Span × Text) → Text
  | pos, [] => t.drop pos
  | pos, (s, new) :: rest => slice t pos s.start ++ new ++ spliceFrom t s.stop rest

/-- Puts replacements for some parts of a text into it. -/
def splice (t : Text) (parts : List (Span × Text)) : Text := spliceFrom t 0 parts

@[simp] theorem splice_nil (t : Text) : splice t [] = t := by simp [splice, spliceFrom]

end Text

end NotePress
