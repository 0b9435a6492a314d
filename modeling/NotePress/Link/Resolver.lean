import NotePress.Cache
import NotePress.Link.Reference
import NotePress.Link.Path

/-!
# Resolving references

A reference is first given to the collection's own index, then taken as an exact path with and
without the ending of notes, and last matched by name: without regard to case, against a document's
whole path or a trailing part of it. Of several matches the one with the fewest slashes wins, then
the least path.
-/

namespace NotePress

/-- Where references are resolved. -/
structure Resolver where
  collection : Collection
  /-- The directory that matching by name is limited to. -/
  searchRoot : Option Text

namespace Resolver

/-- A resolver that matches by name below a directory; a blank one sets no limit. -/
def within (collection : Collection) (searchRoot : Option Text) : Resolver :=
  ⟨collection, searchRoot.filter fun r => !r.allBlank⟩

/-- Whether a path is the wanted one, or ends with it behind a slash. -/
def endsWithPath (path wanted : Text) : Bool :=
  match Text.dropEnding? wanted path with
  | none => false
  | some front => front.isEmpty || front.getLast? = some '/'

/-- Whether a document matches a name, given in lower case. -/
def matchesName (wanted : Text) (id : DocumentId) : Bool :=
  let path := id.path.lower
  endsWithPath path wanted || endsWithPath path (wanted ++ noteEnding)

/-- Whether one match is preferred to another. -/
def preferred (a b : DocumentId) : Bool := a.depth < b.depth || a.depth = b.depth && a.lt b

/-- The first of the most preferred ids. -/
def best? : List DocumentId → Option DocumentId
  | [] => none
  | a :: rest =>
    match best? rest with
    | none => some a
    | some b => if preferred b a then some b else some a

/-- The best match by name in a listing. -/
def bestMatch? (wanted : Text) (listing : List DocumentId) : Option DocumentId :=
  best? (listing.filter (matchesName wanted))

/-- What a target means without matching by name. -/
def resolveExact? (r : Resolver) (target : Text) (source : DocumentId) : Option DocumentId :=
  match r.collection.resolve target source with
  | some id => some id
  | none =>
    [DocumentId.ofPath target,
      DocumentId.ofPath ((DocumentId.ofPath target).path ++ noteEnding)].find?
      r.collection.contains

/-- The document that a reference in `source` means, with the cache as it is afterwards. -/
def resolve (r : Resolver) (c : Cache) (reference : Reference) (source : DocumentId) :
    Option DocumentId × Cache :=
  match r.resolveExact? reference.target source with
  | some id => (some id, c)
  | none =>
    let wanted := (DocumentId.ofPath reference.target).path.lower
    if wanted = [] then (none, c)
    else
      let (listing, c) := c.listOnce r.collection r.searchRoot
      (bestMatch? wanted listing, c)

end Resolver

end NotePress
