import NotePress.Text.Basic

/-!
# Failures and what they come from

A failure is shown with its causes below it, the nearest one first; several causes are numbered.
Further lines of a cause are indented like its first one.
-/

namespace NotePress.Cli

/-- A failure, and what it comes from. -/
structure Failure where
  message : Text
  causes : List Text := []
  deriving DecidableEq, Repr

namespace Failure

/-- A cause with its number, if there is one. -/
def causeText (number : Option Nat) (cause : Text) : Text :=
  let (first, later) := match number with
    | some n =>
      let digits := Text.ofNat n
      (List.replicate (5 - digits.length) ' ' ++ digits ++ ": ".toList, List.replicate 7 ' ')
    | none => (List.replicate 4 ' ', List.replicate 4 ' ')
  match cause.breakLines with
  | [] => first
  | line :: rest => Text.unlines ((first ++ line) :: rest.map (later ++ ·))

/-- The causes from a number on. -/
def numbered : Nat → List Text → List Text
  | _, [] => []
  | n, cause :: rest => causeText (some n) cause :: numbered (n + 1) rest

/-- The text of a failure. -/
def render (f : Failure) : Text :=
  let causes := match f.causes with
    | [] => []
    | [cause] => "\n\nCaused by:\n".toList ++ causeText none cause
    | causes => "\n\nCaused by:\n".toList ++ Text.unlines (numbered 0 causes)
  "Error: ".toList ++ f.message ++ causes ++ ['\n']

end Failure

end NotePress.Cli
