import NotePress.Link.Resolver
import NotePress.Note.Embed
import NotePress.Weaving

/-!
# Expanding embeds

An embed of a note is replaced by the note's body, or by the section or block that the reference
names, and the inserted text is expanded in turn, relative to the note it comes from. The documents
on the way down are carried along; an embed of one of them gives nothing and a warning. What an
embed quotes, it quotes line by line.
-/

namespace NotePress

/-- An embed with what its reference means, found before any embed is replaced. -/
structure ExpansionSite where
  span : Span
  quote : Text
  reference : Option Reference
  target : Option DocumentId

/-- Puts a quote prefix in front of every line; of an empty text only the prefix is left, less its
trailing blanks. -/
def quoteInserted (quote t : Text) : Text :=
  match quote, t with
  | [], _ => t
  | _, [] => quote.trimEnd
  | _, _ => Text.unlines (t.breakLines.map (quote ++ ·))

namespace ExpansionSite

/-- The part of a note that an embed names. -/
def asks (site : ExpansionSite) : Option (DocumentId × Part) :=
  match site.reference, site.target with
  | some reference, some target => if target.isNote then some (target, reference.part) else none
  | _, _ => none

/-- What an embed becomes into which no note is brought. It stays, unless the note is on the way
down or has no such part. -/
def without (source : DocumentId) (site : ExpansionSite) (why : Option Refusal) :
    Option Text × List Warning :=
  match site.reference, site.target, why with
  | some reference, none, _ => (none, [.unresolved source reference.render])
  | some _, some target, some .barred =>
    (some (quoteInserted site.quote []), [.cycle source target])
  | some _, some target, some (.unreadable e) => (none, [.readFailed target e.message])
  | some reference, some target, some .partMissing =>
    (some (quoteInserted site.quote []),
      [.sectionNotFound target (reference.part.name?.getD [])])
  | _, _, _ => (none, [])

end ExpansionSite

namespace Resolver

/-- Resolves the references of embeds, in order. -/
def sitesOf (r : Resolver) (source : DocumentId) :
    List (Hit Embed) → Cache → List ExpansionSite × Cache
  | [], c => ([], c)
  | e :: rest, c =>
    let reference := Reference.parse? e.value.inner
    let (target, c) := match reference with
      | some reference => r.resolve c reference source
      | none => (none, c)
    let (sites, c) := sitesOf r source rest c
    (⟨e.span, e.value.quote, reference, target⟩ :: sites, c)

/-- The notes that embeds will ask for and the cache does not have, each once. -/
def pending (visited : List DocumentId) (c : Cache) (sites : List ExpansionSite) :
    List DocumentId :=
  ((sites.filterMap (·.target)).filter fun id =>
    id.isNote && !visited.contains id && !c.contains id).eraseDups

/-- Reads documents into the cache; failed reads leave no trace. -/
def fetch (g : Collection) (ids : List DocumentId) (c : Cache) : Cache :=
  ids.foldl (fun c id => (c.readOnce g id).2) c

/-- Reads the pending notes up front if there are two or more. -/
def fetchPending (r : Resolver) (visited : List DocumentId) (sites : List ExpansionSite)
    (c : Cache) : Cache :=
  let ids := pending visited c sites
  if ids.length < 2 then c else fetch r.collection ids c

/-- The embeds of a text outside its fences, resolved, with the notes they ask for read. -/
def findEmbeds (r : Resolver) (t : Text) (source : DocumentId) (visited : List DocumentId)
    (c : Cache) : List ExpansionSite × Cache :=
  let (sites, c) := r.sitesOf source t.openEmbeds c
  (sites, r.fetchPending visited sites c)

/-- Expands embeds. -/
def expander (r : Resolver) : Weaver ExpansionSite where
  collection := r.collection
  span := (·.span)
  find := r.findEmbeds
  asks := ExpansionSite.asks
  without := ExpansionSite.without
  frame site := quoteInserted site.quote

/-- Expands a text that stands in `source`, with documents that count as being brought in. -/
def expandVisited (r : Resolver) (c : Cache) (t : Text) (source : DocumentId)
    (visited : List DocumentId) : Woven × Cache :=
  r.expander.weave t source visited c

/-- Expands a text that stands in `source`. -/
def expand (r : Resolver) (c : Cache) (t : Text) (source : DocumentId) : Woven × Cache :=
  r.expandVisited c t source [source]

end Resolver

end NotePress
