import NotePress.Document.Id

/-!
# Warnings

A note can be exported whatever it links to. What goes wrong with its links becomes a warning, and
the text is left as it is, linked or left out.
-/

namespace NotePress

/-- Something that went wrong while a note was prepared. -/
inductive Warning where
  /-- A reference in `source` means no document. -/
  | unresolved (source : DocumentId) (reference : Text)
  /-- An embed in `source` would bring in a document that is just being brought in. -/
  | cycle (source target : DocumentId)
  /-- The target has no such heading or block. -/
  | sectionNotFound (target : DocumentId) (part : Text)
  /-- The target cannot be read. -/
  | readFailed (target : DocumentId) (message : Text)
  /-- The last pass still changed the text. -/
  | notConverged (passes : Nat)
  /-- The text could not be fixed, and was compiled as it is. -/
  | lintFailed (message : Text)
  deriving DecidableEq

/-- The text of a warning. -/
def Warning.message : Warning → Text
  | .unresolved source reference =>
    source.path ++ ": could not resolve '".toList ++ reference ++ "'".toList
  | .cycle source target =>
    source.path ++ ": embedding '".toList ++ target.path ++ "' would create a cycle".toList
  | .sectionNotFound target part =>
    target.path ++ ": section '".toList ++ part ++ "' not found".toList
  | .readFailed target message =>
    target.path ++ ": could not be read: ".toList ++ message
  | .notConverged passes =>
    "rewriting did not settle after ".toList ++ Text.ofNat passes ++ " passes".toList
  | .lintFailed message => "lint fix failed: ".toList ++ message

end NotePress
