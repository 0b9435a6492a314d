import NotePress.Document.Id

/-!
# Content graphs

The collection of documents a note can link to. Links are followed through these operations only,
so a collection may live in memory or in a directory.
-/

namespace NotePress

/-- Why a document or file cannot be read or written. -/
inductive AccessError where
  /-- The collection has no such document. -/
  | notFound (name : Text)
  /-- The collection refuses to hand it out. -/
  | refused (id : DocumentId)
  /-- Nothing stands at the path. -/
  | missing
  /-- A part of the path is no directory. -/
  | notADirectory
  /-- The path names a directory. -/
  | isADirectory
  /-- There is something in the way. -/
  | alreadyThere
  /-- The content is no text. -/
  | notText
  /-- A name is longer than file systems allow. -/
  | nameTooLong
  /-- The device behind the path is not there. -/
  | noDevice
  /-- A name holds a character that no file name may hold. -/
  | invalidName
  deriving DecidableEq

/-- The number and the text that the system has for an error, if it has one. -/
def AccessError.system? : AccessError → Option (Nat × Text)
  | .missing => some (2, "No such file or directory".toList)
  | .noDevice => some (6, "No such device or address".toList)
  | .alreadyThere => some (17, "File exists".toList)
  | .notADirectory => some (20, "Not a directory".toList)
  | .isADirectory => some (21, "Is a directory".toList)
  | .nameTooLong => some (36, "File name too long".toList)
  | _ => none

/-- The text of an error. -/
def AccessError.message (e : AccessError) : Text :=
  match e with
  | .notFound name => name
  | .refused id => "read of ".toList ++ id.path ++ " failed".toList
  | .notText => "stream did not contain valid UTF-8".toList
  | .invalidName => "file name contained an unexpected NUL byte".toList
  | _ =>
    match e.system? with
    | some (n, text) => text ++ " (os error ".toList ++ Text.ofNat n ++ [')']
    | none => []

/-- A collection of documents. -/
structure Collection where
  /-- What a link in a document means by the collection's own index. -/
  resolve : Text → DocumentId → Option DocumentId
  /-- The full text of a document. -/
  read : DocumentId → Except AccessError Text
  /-- All documents, or those below a directory, in order. -/
  list : Option Text → List DocumentId
  /-- Whether there is a document with exactly this id. -/
  contains : DocumentId → Bool
  /-- The directory that paths are relative to, if there is one. -/
  root? : Option Text

end NotePress
