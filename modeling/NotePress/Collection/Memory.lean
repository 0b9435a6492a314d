import NotePress.Collection.Basic
import NotePress.Link.Path

/-!
# Collections in memory

Documents are kept in the order of their ids, each id once; a later document replaces an earlier
one of the same id. Reads of chosen ids fail.
-/

namespace NotePress

/-- Puts an entry into an ordered list of entries, in place of one with the same id. -/
def insertEntry {α : Type} (id : DocumentId) (a : α) :
    List (DocumentId × α) → List (DocumentId × α)
  | [] => [(id, a)]
  | e :: rest =>
    if id = e.1 then (id, a) :: rest
    else if id.lt e.1 then (id, a) :: e :: rest
    else e :: insertEntry id a rest

/-- A collection in memory. -/
structure MemoryVault where
  /-- The documents, in the order of their ids. -/
  documents : List (DocumentId × Text)
  /-- The ids whose reads fail. -/
  failing : List DocumentId

namespace MemoryVault

/-- The collection of some documents; the last one of an id counts. -/
def ofDocuments (documents : List (DocumentId × Text)) (failing : List DocumentId) : MemoryVault :=
  ⟨documents.foldl (fun kept d => insertEntry d.1 d.2 kept) [], failing⟩

/-- Whether there is a document with this id. -/
def contains (g : MemoryVault) (id : DocumentId) : Bool := (g.documents.lookup id).isSome

/-- The text of a document. -/
def read (g : MemoryVault) (id : DocumentId) : Except AccessError Text :=
  if id ∈ g.failing then .error (.refused id)
  else
    match g.documents.lookup id with
    | some text => .ok text
    | none => .error (.notFound id.path)

/-- What ids below a directory start with; the root, blank or slashes only, asks for nothing. -/
def listingStart (root : Option Text) : Text :=
  match root.map fun r => Text.dropTail (· = '/') (r.trim.dropWhile (· = '/')) with
  | some (c :: cs) => c :: cs ++ ['/']
  | _ => []

/-- The documents below a directory. -/
def list (g : MemoryVault) (root : Option Text) : List DocumentId :=
  (g.documents.map (·.1)).filter fun id => id.path.startsWith (listingStart root)

/-- The operations of a collection in memory. -/
def toCollection (g : MemoryVault) : Collection where
  resolve reference base := (idsFor reference base).find? g.contains
  read := g.read
  list := g.list
  contains := g.contains
  root? := none

end MemoryVault

end NotePress
