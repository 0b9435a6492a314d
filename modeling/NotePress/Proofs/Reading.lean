import NotePress.Lowering.Pass

/-!
# Reading through a cache

What a cache holds goes before what the collection gives. This module says what a collection looks
like through a cache, `Collection.seenThrough`, and that nothing that is read or listed changes the
view: `ReadsThrough g f value` says that `f` gives what `value` gives for the view, and leaves the
view as it is. It holds of reading and listing, hence of resolving a reference, of finding and
filling embeds, and of finding and filling the constructs of a pass. So every fact about a run can
be stated for one collection, whatever the cache held at the start.
-/

namespace NotePress

variable {α β : Type}

/-- A collection as it is seen through a cache. -/
def Collection.seenThrough (g : Collection) (c : Cache) : Collection :=
  { g with
    read := fun id => (c.readOnce g id).1
    list := fun root => (c.listOnce g root).1 }

/-- A resolver over another collection. -/
def Resolver.over (r : Resolver) (g : Collection) : Resolver := { r with collection := g }

/-- A resolver as it works through a cache. -/
def Resolver.seenThrough (r : Resolver) (c : Cache) : Resolver :=
  r.over (r.collection.seenThrough c)

/-- A lowering over another collection. -/
def Lowering.over (l : Lowering) (g : Collection) : Lowering :=
  { l with resolver := l.resolver.over g }

/-- A lowering as it works through a cache. -/
def Lowering.seenThrough (l : Lowering) (c : Cache) : Lowering :=
  l.over (l.resolver.collection.seenThrough c)

/-- `f` gives what `value` says of the collection as it is seen, and does not change what is
seen. -/
structure ReadsThrough (g : Collection) (f : Cache → α × Cache) (value : Collection → α) :
    Prop where
  result : ∀ c, (f c).1 = value (g.seenThrough c)
  seen : ∀ c, g.seenThrough (f c).2 = g.seenThrough c

namespace ReadsThrough

variable {g : Collection}

theorem pure (a : α) : ReadsThrough g (fun c => (a, c)) (fun _ => a) := ⟨fun _ => rfl, fun _ => rfl⟩

/-- One step after another: the second one may depend on what the first one gave. -/
theorem bind {f : Cache → α × Cache} {value : Collection → α} {f' : α → Cache → β × Cache}
    {value' : α → Collection → β} (h : ReadsThrough g f value)
    (h' : ∀ a, ReadsThrough g (f' a) (value' a)) :
    ReadsThrough g (fun c => f' (f c).1 (f c).2) (fun g' => value' (value g') g') where
  result c := by rw [(h' _).result, h.seen, h.result]
  seen c := by rw [(h' _).seen, h.seen]

theorem map {f : Cache → α × Cache} {value : Collection → α} (h : ReadsThrough g f value)
    (k : α → β) : ReadsThrough g (fun c => (k (f c).1, (f c).2)) (fun g' => k (value g')) :=
  h.bind fun a => pure (k a)

end ReadsThrough

/-! ### Reading and listing -/

namespace Cache

variable {g : Collection} {c : Cache}

theorem readOnce_fst (g : Collection) (c : Cache) (id : DocumentId) :
    (c.readOnce g id).1 = ((c.get? id).map .ok).getD (g.read id) := by
  unfold readOnce
  cases c.get? id with
  | some text => rfl
  | none => cases g.read id <;> rfl

theorem listOnce_fst (g : Collection) (c : Cache) (root : Option Text) :
    (c.listOnce g root).1 = (c.listings.lookup root).getD (g.list root) := by
  unfold listOnce
  cases c.listings.lookup root <;> rfl

/-- Remembering what the collection gives does not change what is read. -/
theorem readOnce_insert {id : DocumentId} {text : Text} (hnew : c.get? id = none)
    (hread : g.read id = .ok text) (other : DocumentId) :
    ((c.insert id text).readOnce g other).1 = (c.readOnce g other).1 := by
  rw [readOnce_fst, readOnce_fst, get?_insert]
  by_cases h : other = id
  · subst h
    simp [hnew, hread]
  · rw [if_neg h]

theorem seenThrough_readOnce (g : Collection) (c : Cache) (id : DocumentId) :
    g.seenThrough (c.readOnce g id).2 = g.seenThrough c := by
  unfold readOnce
  cases hnew : c.get? id with
  | some text => rfl
  | none =>
    cases hread : g.read id with
    | error e => rfl
    | ok text =>
      unfold Collection.seenThrough
      congr 1
      · funext other
        exact readOnce_insert hnew hread other
      · funext root
        rw [listOnce_fst, listOnce_fst]
        rfl

/-- A listing that is remembered does not change what is listed. -/
theorem seenThrough_listOnce (g : Collection) (c : Cache) (root : Option Text) :
    g.seenThrough (c.listOnce g root).2 = g.seenThrough c := by
  unfold listOnce
  cases hnew : c.listings.lookup root with
  | some listing => rfl
  | none =>
    unfold Collection.seenThrough
    congr 1
    · funext id
      rw [readOnce_fst, readOnce_fst]
      rfl
    · funext other
      rw [listOnce_fst, listOnce_fst, List.lookup_cons]
      by_cases h : other = root
      · subst h
        simp [hnew]
      · rw [beq_eq_false_iff_ne.2 h]

theorem readsThrough_readOnce (g : Collection) (id : DocumentId) :
    ReadsThrough g (·.readOnce g id) (·.read id) :=
  ⟨fun _ => rfl, fun c => seenThrough_readOnce g c id⟩

end Cache

/-- Nothing is seen through the cache that remembers nothing. -/
@[simp] theorem Collection.seenThrough_empty (g : Collection) : g.seenThrough .empty = g := by
  unfold Collection.seenThrough
  congr 1
  funext id
  rw [Cache.readOnce_fst]
  rfl

@[simp] theorem Resolver.seenThrough_empty (r : Resolver) : r.seenThrough .empty = r := by
  unfold Resolver.seenThrough
  rw [Collection.seenThrough_empty]
  rfl

@[simp] theorem Lowering.seenThrough_empty (l : Lowering) : l.seenThrough .empty = l := by
  unfold Lowering.seenThrough
  rw [Collection.seenThrough_empty]
  rfl

/-! ### References and notes -/

/-- The document that a reference in `source` means, with the listing made anew. -/
def Resolver.meaning (r : Resolver) (reference : Reference) (source : DocumentId) :
    Option DocumentId :=
  match r.resolveExact? reference.target source with
  | some id => some id
  | none =>
    let wanted := (DocumentId.ofPath reference.target).path.lower
    if wanted = [] then none else bestMatch? wanted (r.collection.list r.searchRoot)

theorem Resolver.readsThrough_resolve (r : Resolver) (reference : Reference) (source : DocumentId) :
    ReadsThrough r.collection (r.resolve · reference source)
      (fun g => (r.over g).meaning reference source) := by
  constructor
  · intro c
    unfold resolve meaning
    rw [show (r.over (r.collection.seenThrough c)).resolveExact? = r.resolveExact? from rfl]
    cases r.resolveExact? reference.target source with
    | some id => rfl
    | none =>
      simp only
      split <;> rfl
  · intro c
    unfold resolve
    cases r.resolveExact? reference.target source with
    | some id => rfl
    | none =>
      simp only
      split
      · rfl
      · exact Cache.seenThrough_listOnce r.collection c r.searchRoot

/-- Asks for a part of a note, which is read anew. -/
def Collection.readPart (g : Collection) (visited : List DocumentId) (target : DocumentId)
    (part : Part) : Except Refusal Text :=
  if target ∈ visited then .error .barred else part.ofNote (g.read target)

theorem Collection.readsThrough_fetchPart (g : Collection) (visited : List DocumentId)
    (target : DocumentId) (part : Part) :
    ReadsThrough g (g.fetchPart visited target part) (·.readPart visited target part) := by
  unfold fetchPart readPart
  by_cases hv : target ∈ visited
  · simp only [hv, if_true]
    exact .pure _
  · simp only [hv, if_false]
    exact (Cache.readsThrough_readOnce g target).map part.ofNote

theorem Collection.readPart_eq_ok_iff {g : Collection} {visited : List DocumentId}
    {target : DocumentId} {part : Part} {content : Text} :
    g.readPart visited target part = .ok content ↔
      target ∉ visited ∧
        ∃ raw, g.read target = .ok raw ∧ raw.withoutFrontMatter.part? part = some content := by
  unfold readPart Part.ofNote
  by_cases hv : target ∈ visited
  · simp [hv]
  · simp only [hv, if_false, not_false_eq_true, true_and]
    cases g.read target with
    | error e => simp
    | ok raw => cases h : raw.withoutFrontMatter.part? part <;> simp [h]

/-! ### Sites -/

namespace Weaver

variable {σ : Type}

/-- What is brought into a site, or why nothing is, in a collection that is read anew. -/
def answer (w : Weaver σ) (visited : List DocumentId) (site : σ) (g : Collection) :
    Except (Option Refusal) (DocumentId × Text) :=
  match w.asks site with
  | none => .error none
  | some (target, part) => granted target (g.readPart visited target part)

theorem readsThrough_ask (w : Weaver σ) (visited : List DocumentId) (site : σ) :
    ReadsThrough w.collection (w.ask visited site) (w.answer visited site) := by
  unfold ask answer
  cases w.asks site with
  | none => exact .pure _
  | some asked =>
    exact (w.collection.readsThrough_fetchPart visited asked.1 asked.2).map (granted asked.1)

/-- **What is brought into a site**: the part that it asks for, of a note that is not on the way
down and can be read. -/
theorem answer_eq_ok_iff {w : Weaver σ} {visited : List DocumentId} {site : σ} {g : Collection}
    {target : DocumentId} {content : Text} :
    w.answer visited site g = .ok (target, content) ↔
      ∃ part raw, w.asks site = some (target, part) ∧ target ∉ visited ∧
        g.read target = .ok raw ∧ raw.withoutFrontMatter.part? part = some content := by
  unfold answer
  cases w.asks site with
  | none => simp
  | some asked =>
    obtain ⟨id, part⟩ := asked
    cases h : g.readPart visited id part with
    | error why =>
      simp only [granted, h, reduceCtorEq, Option.some.injEq, Prod.mk.injEq, false_iff]
      rintro ⟨_, raw, ⟨rfl, rfl⟩, hv, hr, hp⟩
      rw [Collection.readPart_eq_ok_iff.mpr ⟨hv, raw, hr, hp⟩] at h
      cases h
    | ok found =>
      obtain ⟨hv, raw, hr, hp⟩ := Collection.readPart_eq_ok_iff.mp h
      simp only [granted, h, Except.ok.injEq, Prod.mk.injEq, Option.some.injEq]
      constructor
      · rintro ⟨rfl, rfl⟩
        exact ⟨part, raw, ⟨rfl, rfl⟩, hv, hr, hp⟩
      · rintro ⟨_, raw', ⟨rfl, rfl⟩, -, hr', hp'⟩
        rw [hr] at hr'
        cases hr'
        rw [hp] at hp'
        exact ⟨rfl, Option.some.inj hp'⟩

/-- What is barred is on the way down. -/
theorem answer_eq_barred_iff {w : Weaver σ} {visited : List DocumentId} {site : σ}
    {g : Collection} :
    w.answer visited site g = .error (some .barred) ↔
      ∃ target part, w.asks site = some (target, part) ∧ target ∈ visited := by
  unfold answer
  cases w.asks site with
  | none => simp
  | some asked =>
    obtain ⟨id, part⟩ := asked
    unfold Collection.readPart Part.ofNote
    by_cases hv : id ∈ visited
    · simp [hv, granted]
    · simp only [hv, if_false]
      cases g.read id with
      | error e => simp [granted, hv]
      | ok raw => cases h : raw.withoutFrontMatter.part? part <;> simp [granted, h, hv]

end Weaver

namespace Resolver

/-- An embed in `source` with what its reference means. -/
def siteOf (r : Resolver) (source : DocumentId) (e : Hit Embed) : ExpansionSite :=
  let reference := Reference.parse? e.value.inner
  ⟨e.span, e.value.quote, reference, reference.bind (r.meaning · source)⟩

/-- The embeds of a text outside its fences, resolved. -/
def sitesIn (r : Resolver) (t : Text) (source : DocumentId) : List ExpansionSite :=
  t.openEmbeds.map (r.siteOf source)

theorem readsThrough_sitesOf (r : Resolver) (source : DocumentId) (hits : List (Hit Embed)) :
    ReadsThrough r.collection (r.sitesOf source hits)
      (fun g => hits.map ((r.over g).siteOf source)) := by
  induction hits with
  | nil => exact .pure _
  | cons e rest ih =>
    simp only [List.map_cons, siteOf]
    cases hparse : Reference.parse? e.value.inner with
    | none =>
      have step := ih.map (⟨e.span, e.value.quote, none, none⟩ :: ·)
      exact ⟨fun c => by simpa [sitesOf, hparse] using step.result c,
        fun c => by simpa [sitesOf, hparse] using step.seen c⟩
    | some reference =>
      have step := (r.readsThrough_resolve reference source).bind fun target =>
        ih.map (⟨e.span, e.value.quote, some reference, target⟩ :: ·)
      exact ⟨fun c => by simpa [sitesOf, hparse] using step.result c,
        fun c => by simpa [sitesOf, hparse] using step.seen c⟩

/-- Reading ahead does not change what is seen. -/
theorem seenThrough_fetch (g : Collection) (ids : List DocumentId) (c : Cache) :
    g.seenThrough (fetch g ids c) = g.seenThrough c := by
  induction ids generalizing c with
  | nil => rfl
  | cons id rest ih => exact (ih _).trans (Cache.seenThrough_readOnce g c id)

theorem seenThrough_fetchPending (r : Resolver) (visited : List DocumentId)
    (sites : List ExpansionSite) (c : Cache) :
    r.collection.seenThrough (r.fetchPending visited sites c) = r.collection.seenThrough c := by
  unfold fetchPending
  simp only
  split
  · rfl
  · exact seenThrough_fetch _ _ c

theorem readsThrough_findEmbeds (r : Resolver) (t : Text) (source : DocumentId)
    (visited : List DocumentId) :
    ReadsThrough r.collection (r.findEmbeds t source visited)
      (fun g => (r.over g).sitesIn t source) where
  result := (r.readsThrough_sitesOf source t.openEmbeds).result
  seen c := by
    unfold findEmbeds
    rw [seenThrough_fetchPending, (r.readsThrough_sitesOf source t.openEmbeds).seen]

end Resolver

namespace Lowering

/-- What an embed becomes, its reference resolved anew. -/
def embedMeant (l : Lowering) (source : DocumentId) (h : Embed × Option Text) : Option Construct :=
  (Reference.parse? h.1.inner).bind fun reference =>
    (l.resolver.meaning reference source).map (embedConstruct h.1 h.2 reference)

/-- What a note image becomes, its reference resolved anew. -/
def imageMeant (l : Lowering) (source : DocumentId) (h : Embed × Text) : Option Construct :=
  (imageReference? h.2).bind fun reference =>
    (l.resolver.meaning reference source).map (imageConstruct h.1 reference)

/-- The places of hits that become something. -/
def sitesMeant {α : Type} (meant : α → Option Construct) (hits : List (Hit α)) :
    List LoweringSite :=
  hits.filterMap fun h => (meant h.value).map fun construct => ⟨h.span, some construct⟩

/-- All places of a text, before they are brought in order and kept apart. -/
def candidates (l : Lowering) (t : Text) (source : DocumentId) : List LoweringSite :=
  l.fenceSites t ++ sitesMeant (l.embedMeant source) (t.scan recogniseAttributedEmbed) ++
    sitesMeant (l.imageMeant source) (t.scan recogniseImage)

/-- The constructs of a text, in order and apart, resolved anew. -/
def sitesIn (l : Lowering) (t : Text) (source : DocumentId) : List LoweringSite :=
  arrange (l.candidates t source)

theorem readsThrough_constructOfEmbed (l : Lowering) (source : DocumentId)
    (h : Embed × Option Text) :
    ReadsThrough l.resolver.collection (l.constructOfEmbed source h.1 h.2)
      (fun g => (l.over g).embedMeant source h) := by
  unfold constructOfEmbed embedMeant
  cases Reference.parse? h.1.inner with
  | none => exact .pure _
  | some reference =>
    exact (l.resolver.readsThrough_resolve reference source).map
      (Option.map (embedConstruct h.1 h.2 reference))

theorem readsThrough_constructOfImage (l : Lowering) (source : DocumentId) (h : Embed × Text) :
    ReadsThrough l.resolver.collection (l.constructOfImage source h.1 h.2)
      (fun g => (l.over g).imageMeant source h) := by
  unfold constructOfImage imageMeant
  cases imageReference? h.2 with
  | none => exact .pure _
  | some reference =>
    exact (l.resolver.readsThrough_resolve reference source).map
      (Option.map (imageConstruct h.1 reference))

theorem readsThrough_sitesOf {g : Collection} {classify : α → Cache → Option Construct × Cache}
    {meant : Collection → α → Option Construct}
    (h : ∀ a, ReadsThrough g (classify a) (meant · a)) (hits : List (Hit α)) :
    ReadsThrough g (sitesOf classify hits) (fun g' => sitesMeant (meant g') hits) := by
  induction hits with
  | nil => exact .pure _
  | cons hit rest ih =>
    have step := (h hit.value).bind fun construct =>
      ih.map fun sites => if construct.isSome then ⟨hit.span, construct⟩ :: sites else sites
    refine ⟨fun c => (step.result c).trans ?_, step.seen⟩
    simp only [sitesMeant, List.filterMap_cons]
    cases meant (g.seenThrough c) hit.value <;> rfl

theorem readsThrough_scan (l : Lowering) (t : Text) (source : DocumentId) :
    ReadsThrough l.resolver.collection (l.scan t source) (fun g => (l.over g).sitesIn t source) :=
  (readsThrough_sitesOf (l.readsThrough_constructOfEmbed source) _).bind fun embeds =>
    (readsThrough_sitesOf (l.readsThrough_constructOfImage source) _).map fun images =>
      arrange (l.fenceSites t ++ embeds ++ images)

end Lowering

end NotePress
