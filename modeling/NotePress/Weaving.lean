import NotePress.Cache
import NotePress.Note.Section
import NotePress.Warning

/-!
# Weaving notes into a text

Expanding embeds and lowering notes work alike. The sites of a text are found, and a site may ask
for a part of a note, which is woven in turn as a text of that note. The documents on the way down
are carried along, and none of them is brought in again. A `Weaver` says which sites there are, what
they ask for, and what stands there in the end; `Weaver.weave?` is the recursion.

In a collection without end the way down need not end either, so the recursion is a least fixed
point, with `none` for a weaving that does not end.
-/

namespace NotePress

/-- Why a part of a note is not brought in. -/
inductive Refusal where
  /-- The note is being brought in already. -/
  | barred
  /-- The note cannot be read. -/
  | unreadable (cause : AccessError)
  /-- The note has no such part. -/
  | partMissing

/-- A part of a note, by what reading the note gave. -/
def Part.ofNote (part : Part) : Except AccessError Text → Except Refusal Text
  | .error e => .error (.unreadable e)
  | .ok raw =>
    match raw.withoutFrontMatter.part? part with
    | none => .error .partMissing
    | some content => .ok content

/-- Asks for a part of a note that is not on the way down. -/
def Collection.fetchPart (g : Collection) (visited : List DocumentId) (target : DocumentId)
    (part : Part) (c : Cache) : Except Refusal Text × Cache :=
  if target ∈ visited then (.error .barred, c)
  else
    let (note, c) := c.readOnce g target
    (part.ofNote note, c)

/-- A text with its sites filled. -/
structure Woven where
  text : Text
  warnings : List Warning
  deriving DecidableEq

/-- Weaves the text of a document that is brought in. -/
abbrev Bringing := Text → DocumentId → Cache → Option (Woven × Cache)

/-- How sites are found and filled. -/
structure Weaver (σ : Type) where
  collection : Collection
  /-- The place of a site. -/
  span : σ → Span
  /-- The sites of a text, given its document and the documents on the way down. -/
  find : Text → DocumentId → List DocumentId → Cache → List σ × Cache
  /-- The part of a note that a site asks for, if it asks for one. -/
  asks : σ → Option (DocumentId × Part)
  /-- What stands at a site into which no note is brought, and why none is if it asks for one; the
  site keeps its own text if nothing takes its place. With the warnings about it. -/
  without : DocumentId → σ → Option Refusal → Option Text × List Warning
  /-- What stands at a site into which a woven part is brought. -/
  frame : σ → Text → Text

namespace Weaver

variable {σ : Type}

/-- The note that is brought into a site, or why none is. -/
def granted (target : DocumentId) : Except Refusal Text →
    Except (Option Refusal) (DocumentId × Text)
  | .error why => .error (some why)
  | .ok content => .ok (target, content)

/-- What is brought into a site, or why nothing is. -/
def ask (w : Weaver σ) (visited : List DocumentId) (site : σ) (c : Cache) :
    Except (Option Refusal) (DocumentId × Text) × Cache :=
  match w.asks site with
  | none => (.error none, c)
  | some (target, part) =>
    let (answer, c) := w.collection.fetchPart visited target part c
    (granted target answer, c)

/-- Fills sites in order: what takes the place of those that do not keep their own text, and the
warnings. -/
def fillSites (w : Weaver σ) (bring : Bringing) (source : DocumentId) (visited : List DocumentId) :
    List σ → Cache → Option (List (Span × Text) × List Warning × Cache)
  | [], c => some ([], [], c)
  | site :: rest, c =>
    match w.ask visited site c with
    | (.error why, c) => do
      let (parts, later, c) ← w.fillSites bring source visited rest c
      let (new, warnings) := w.without source site why
      return (new.toList.map (w.span site, ·) ++ parts, warnings ++ later, c)
    | (.ok (target, content), c) => do
      let (inner, c) ← bring content target c
      let (parts, later, c) ← w.fillSites bring source visited rest c
      return ((w.span site, w.frame site inner.text) :: parts, inner.warnings ++ later, c)

/-- Weavings that end more often let the filling end more often, with the same result. -/
theorem fillSites_mono (w : Weaver σ) {f g : Bringing}
    (h : ∀ t d c, f t d c = none ∨ f t d c = g t d c) (source : DocumentId)
    (visited : List DocumentId) (sites : List σ) (c : Cache) :
    w.fillSites f source visited sites c = none ∨
      w.fillSites f source visited sites c = w.fillSites g source visited sites c := by
  induction sites generalizing c with
  | nil => exact .inr rfl
  | cons site rest ih =>
    unfold fillSites
    split
    · rename_i c _
      rcases ih c with e | e <;> simp [e]
    · rename_i target content c _
      rcases h content target c with e | e
      · simp [e]
      · rw [e]
        cases g content target c with
        | none => simp
        | some inner => rcases ih inner.2 with e | e <;> simp [e]

/-- Weaves a text that stands in `source`, if that ends. -/
def weave? (w : Weaver σ) (t : Text) (source : DocumentId) (visited : List DocumentId) (c : Cache) :
    Option (Woven × Cache) := do
  let (sites, c) := w.find t source visited c
  let (parts, warnings, c) ←
    w.fillSites (fun content target c => (w.weave? (c := c)) content target (target :: visited))
      source visited sites c
  return (⟨t.splice parts, warnings⟩, c)
partial_fixpoint monotonicity by
  intro f g h t source visited c
  have step : ∀ content target c, f content target (target :: visited) c = none ∨
      f content target (target :: visited) c = g content target (target :: visited) c := by
    intro content target c
    have below := h content target (target :: visited) c
    generalize f content target (target :: visited) c = a at below ⊢
    cases below with
    | bot => exact .inl rfl
    | refl => exact .inr rfl
  rcases w.fillSites_mono step source visited (w.find t source visited c).1
      (w.find t source visited c).2 with e | e
  · simp only [e]
    exact .bot
  · simp only [e]
    exact .refl

/-- Weaves a text that stands in `source`. If that does not end the text stays as it is, which no
caller sees. -/
def weave (w : Weaver σ) (t : Text) (source : DocumentId) (visited : List DocumentId) (c : Cache) :
    Woven × Cache :=
  (w.weave? t source visited c).getD (⟨t, []⟩, c)

end Weaver

end NotePress
