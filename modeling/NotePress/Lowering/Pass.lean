import NotePress.Expansion
import NotePress.Profile.Basic
import NotePress.Lowering.Attributes
import NotePress.Lowering.Directive
import NotePress.Lowering.Language

/-!
# Lowering a note to what the compiler reads

One pass looks for code fences, embeds and note images. Fences always count, so that nothing inside
them is touched; embeds and images count if they mean a document. Of constructs that overlap the one
that starts first stays, and of two that start together the longer one. What takes their place may
hold constructs again, so passes are repeated until one changes nothing, at most `passLimit` times.
-/

namespace NotePress

/-- A construct with what is needed to replace it. -/
inductive Construct where
  /-- An embed of a document that is no note. -/
  | image (quote : Text) (target : DocumentId) (label caption width height : Option Text)
  /-- An embed or image of a note. -/
  | note (quote : Text) (target : DocumentId) (linkText : Option Text) (part : Part)
  /-- A fence with a language or an attribute block. -/
  | listing (quote : Text) (language label caption : Option Text) (body : Text)
  deriving DecidableEq

/-- A construct and its place; without a construct the place only shields its inside. -/
structure LoweringSite where
  span : Span
  construct : Option Construct

/-- The part of a note that a place asks for. -/
def LoweringSite.asks (site : LoweringSite) : Option (DocumentId × Part) :=
  match site.construct with
  | some (.note _ target _ part) => some (target, part)
  | _ => none

/-- Quotes a note as the place is quoted. -/
def LoweringSite.frame (site : LoweringSite) (t : Text) : Text :=
  match site.construct with
  | some (.note quote _ _ _) => quoteLines quote t
  | _ => t

/-- How notes of a collection are lowered. -/
structure Lowering where
  resolver : Resolver
  profile : Profile
  /-- Whether annotated fences become listings. -/
  listings : Bool

/-- What passes over a text lead to. -/
structure LoweringOutcome where
  text : Text
  /-- The passes made, with the last one that changed nothing. -/
  passes : Nat
  /-- Whether the last pass changed nothing. -/
  converged : Bool
  deriving DecidableEq, Repr

namespace Lowering

/-- The lowering for a collection under a profile. -/
def of (collection : Collection) (profile : Profile) (listings : Bool) : Lowering :=
  ⟨Resolver.within collection profile.searchDirectory, profile, listings⟩

/-- The tag and the attribute block of an info string. -/
def splitInfo (info : Text) : Text × Option Text :=
  match info.cutAt? '\x7b' with
  | some (tag, rest) => (tag, (rest.cutAtLast? '\x7d').map (·.1))
  | none => (info, none)

/-- What a fence becomes; nothing if it is plain. -/
def constructOfFence (l : Lowering) (fence : Fence) : Option Construct :=
  if !l.listings then none
  else
    let (tagText, block) := splitInfo fence.info
    let tag := tagText.words.head?.map fun w => w.dropWhile (· = '.')
    if tag.isNone && block.isNone then none
    else
      let attributes := (block.map Attributes.parse).getD {}
      let language := (tag.or attributes.className).bind listingLanguage?
      some (.listing fence.quote language attributes.label attributes.caption fence.body)

/-- A size in pixels. -/
def pixels (n : Nat) : Text := Text.ofNat n ++ "px".toList

/-- What an embed of a document becomes. -/
def embedConstruct (embed : Embed) (block : Option Text) (reference : Reference)
    (target : DocumentId) : Construct :=
  let attributes := (block.map Attributes.parse).getD {}
  let shown := reference.shown.bind Text.unlessBlank?
  let caption := attributes.caption.bind Text.unlessBlank?
  if target.isNote then .note embed.quote target (shown.or caption) reference.part
  else
    let width := reference.size.map fun s => pixels s.width
    let height := (reference.size.bind (·.height)).map pixels
    let label := attributes.label.bind Text.unlessBlank?
    .image embed.quote target label (caption.or shown) (attributes.width.or width)
      (attributes.height.or height)

/-- What an embed becomes; nothing if it means no document. -/
def constructOfEmbed (l : Lowering) (source : DocumentId) (embed : Embed) (block : Option Text)
    (c : Cache) : Option Construct × Cache :=
  match Reference.parse? embed.inner with
  | none => (none, c)
  | some reference =>
    let (target, c) := l.resolver.resolve c reference source
    (target.map (embedConstruct embed block reference), c)

/-- Whether a path has an extension of notes, that of plain text left out. -/
def isNoteFile (path : Text) : Bool :=
  match (DocumentId.ofPath path).extension? with
  | some ext => ext.sameAscii "md".toList || ext.sameAscii "markdown".toList
  | none => false

/-- The reference of a note image; none if its target is remote or no note. -/
def imageReference? (target : Text) : Option Reference :=
  let destination := readDestination target
  if Text.occursIn "://".toList destination then none
  else (Reference.parse? destination).filter fun reference => isNoteFile reference.target

/-- What an image of a document becomes. -/
def imageConstruct (image : Embed) (reference : Reference) (target : DocumentId) : Construct :=
  .note image.quote target image.inner.unlessBlank? reference.part

/-- What a note image becomes; nothing if it means no document. -/
def constructOfImage (l : Lowering) (source : DocumentId) (image : Embed) (target : Text)
    (c : Cache) : Option Construct × Cache :=
  match imageReference? target with
  | none => (none, c)
  | some reference =>
    let (target, c) := l.resolver.resolve c reference source
    (target.map (imageConstruct image reference), c)

/-- Classifies hits in order and keeps those that become something. -/
def sitesOf {α : Type} (classify : α → Cache → Option Construct × Cache) :
    List (Hit α) → Cache → List LoweringSite × Cache
  | [], c => ([], c)
  | hit :: rest, c =>
    let (construct, c) := classify hit.value c
    let (sites, c) := sitesOf classify rest c
    (if construct.isSome then ⟨hit.span, construct⟩ :: sites else sites, c)

/-- Whether a site goes before another: it starts earlier, or together and ends later. -/
def goesBefore (a b : LoweringSite) : Bool :=
  a.span.start < b.span.start || a.span.start = b.span.start && b.span.stop < a.span.stop

/-- Puts a site in front of the first one that it goes before. -/
def insertSite (site : LoweringSite) : List LoweringSite → List LoweringSite
  | [] => [site]
  | other :: rest =>
    if goesBefore site other then site :: other :: rest else other :: insertSite site rest

/-- Keeps the sites that start no earlier than the last kept one stops, at `free`. -/
def keepApart (free : Nat) : List LoweringSite → List LoweringSite
  | [] => []
  | site :: rest =>
    if free ≤ site.span.start then site :: keepApart site.span.stop rest else keepApart free rest

/-- Brings sites in order and keeps them apart. -/
def arrange (sites : List LoweringSite) : List LoweringSite :=
  keepApart 0 (sites.foldl (fun kept site => insertSite site kept) [])

/-- The code fences of a text. -/
def fenceSites (l : Lowering) (t : Text) : List LoweringSite :=
  t.fences.map fun f => ⟨f.span, l.constructOfFence f⟩

/-- The constructs of a text, in order and apart. -/
def scan (l : Lowering) (t : Text) (source : DocumentId) (c : Cache) : List LoweringSite × Cache :=
  let (embeds, c) :=
    sitesOf (fun h => l.constructOfEmbed source h.1 h.2) (t.scan recogniseAttributedEmbed) c
  let (images, c) := sitesOf (fun h => l.constructOfImage source h.1 h.2) (t.scan recogniseImage) c
  (arrange (l.fenceSites t ++ embeds ++ images), c)

/-- What takes the place of a construct into which no note is brought. A note that cannot stand in
the text is linked. -/
def render (l : Lowering) : Construct → Text
  | .image quote target label caption width height =>
    let width := width.or l.profile.shownWidth
    if quote = [] then figureOf target label caption width height
    else quotedImage quote target width
  | .note quote target linkText _ => noteLink quote target linkText
  | .listing quote language label caption body => listingOf quote language label caption body

/-- Lowers constructs. -/
def lowerer (l : Lowering) : Weaver LoweringSite where
  collection := l.resolver.collection
  span := (·.span)
  find t source _ c := l.scan t source c
  asks := LoweringSite.asks
  without _ site _ := (site.construct.map l.render, [])
  frame := LoweringSite.frame

/-- One pass over a text that stands in `source`. -/
def pass (l : Lowering) (c : Cache) (t : Text) (source : DocumentId) : Text × Cache :=
  let (woven, c) := l.lowerer.weave t source [source] c
  (woven.text, c)

/-- The most passes that are made. -/
def passLimit : Nat := 5

/-- Repeats passes until one changes nothing; `left` more may be made after `made`. -/
def settle (l : Lowering) (source : DocumentId) :
    (left made : Nat) → Text → Cache → LoweringOutcome × Cache
  | 0, made, t, c => (⟨t, made, false⟩, c)
  | left + 1, made, t, c =>
    let (next, c) := l.pass c t source
    if next = t then (⟨t, made + 1, true⟩, c) else l.settle source left (made + 1) next c

/-- Lowers a text that stands in `source` until nothing changes or the limit is reached. -/
def lower (l : Lowering) (c : Cache) (t : Text) (source : DocumentId) : LoweringOutcome × Cache :=
  l.settle source passLimit 0 t c

end Lowering

end NotePress
