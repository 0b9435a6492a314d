import NotePress.Proofs.Weaving

/-!
# What a cache remembers

A cache only grows: reading and listing through it forget nothing (`Cache.Keeps`), so neither do
resolving a reference, finding and filling sites, and a whole weaving (`Weaver.keeps_weave?`). A
cache is coherent if and only if the collection is seen through it as it is (`Cache.coherent_iff`),
so a coherent cache stays coherent wherever what is seen stays (`Proofs.Reading`).

Notes that are read ahead come in at the same time, so which of them is remembered first is not
known. A `ReadOrder` says in which order they come in, one for each time that notes are read ahead;
`Resolver.expanderIn` expands embeds under it.
-/

namespace NotePress

namespace Cache

/-- Nothing that `c` remembers is forgotten or changed in `c'`. -/
structure Keeps (c c' : Cache) : Prop where
  texts : ∀ id text, c.get? id = some text → c'.get? id = some text
  listings : ∀ root listing, c.listings.lookup root = some listing →
    c'.listings.lookup root = some listing

theorem Keeps.refl (c : Cache) : c.Keeps c := ⟨fun _ _ h => h, fun _ _ h => h⟩

theorem Keeps.trans {c c' c'' : Cache} (h : c.Keeps c') (h' : c'.Keeps c'') : c.Keeps c'' :=
  ⟨fun id text hid => h'.texts id text (h.texts id text hid),
    fun root listing hroot => h'.listings root listing (h.listings root listing hroot)⟩

/-- A document that is read is remembered beside the ones before. -/
theorem keeps_readOnce (c : Cache) (g : Collection) (id : DocumentId) :
    c.Keeps (c.readOnce g id).2 := by
  unfold readOnce
  cases hnew : c.get? id with
  | some text => exact .refl c
  | none =>
    cases g.read id with
    | error e => exact .refl c
    | ok text =>
      refine ⟨fun other found hother => ?_, fun _ _ h => h⟩
      have hne : other ≠ id := by
        rintro rfl
        rw [hnew] at hother
        cases hother
      simpa [get?_insert, hne] using hother

/-- A listing that is made is remembered beside the ones before. -/
theorem keeps_listOnce (c : Cache) (g : Collection) (root : Option Text) :
    c.Keeps (c.listOnce g root).2 := by
  unfold listOnce
  cases hnew : c.listings.lookup root with
  | some listing => exact .refl c
  | none =>
    refine ⟨fun _ _ h => h, fun other listing hother => ?_⟩
    have hne : other ≠ root := by
      rintro rfl
      rw [hnew] at hother
      cases hother
    simpa [List.lookup_cons, beq_eq_false_iff_ne.2 hne] using hother

/-- **A cache is coherent** when the collection is seen through it as it is. -/
theorem coherent_iff {c : Cache} {g : Collection} : c.Coherent g ↔ g.seenThrough c = g := by
  constructor
  · intro h
    unfold Collection.seenThrough
    congr 1
    · funext id
      exact readOnce_of_coherent h id
    · funext root
      rw [listOnce_fst]
      cases hroot : c.listings.lookup root with
      | none => rfl
      | some listing => exact (h.2 root listing hroot).symm
  · intro h
    constructor
    · intro id text hid
      have hread : (c.readOnce g id).1 = g.read id := congrFun (congrArg Collection.read h) id
      rw [readOnce_fst, hid] at hread
      exact hread.symm
    · intro root listing hroot
      have hlist : (c.listOnce g root).1 = g.list root := congrFun (congrArg Collection.list h) root
      rw [listOnce_fst, hroot] at hlist
      exact hlist.symm

theorem coherent_empty (g : Collection) : empty.Coherent g :=
  ⟨fun _ _ => nofun, fun _ _ => nofun⟩

/-- A text that the collection gives may be remembered. -/
theorem Coherent.insert {c : Cache} {g : Collection} (h : c.Coherent g) {id : DocumentId}
    {text : Text} (hread : g.read id = .ok text) : (c.insert id text).Coherent g := by
  refine ⟨fun other found hother => ?_, h.2⟩
  rw [get?_insert] at hother
  split at hother
  · rename_i heq
    cases hother
    rw [heq, hread]
  · exact h.1 other found hother

end Cache

/-! ### Steps that forget nothing -/

/-- `f` forgets nothing. -/
def Remembers {α : Type} (f : Cache → α × Cache) : Prop := ∀ c : Cache, c.Keeps (f c).2

namespace Remembers

variable {α β : Type}

theorem pure (a : α) : Remembers fun c => (a, c) := fun c => .refl c

theorem bind {f : Cache → α × Cache} {f' : α → Cache → β × Cache} (h : Remembers f)
    (h' : ∀ a, Remembers (f' a)) : Remembers fun c => f' (f c).1 (f c).2 :=
  fun c => (h c).trans (h' _ _)

theorem map {f : Cache → α × Cache} (h : Remembers f) (k : α → β) :
    Remembers fun c => (k (f c).1, (f c).2) :=
  h.bind fun a => pure (k a)

end Remembers

namespace Resolver

theorem remembers_resolve (r : Resolver) (reference : Reference) (source : DocumentId) :
    Remembers (r.resolve · reference source) := by
  intro c
  unfold resolve
  cases r.resolveExact? reference.target source with
  | some id => exact .refl c
  | none =>
    simp only
    split
    · exact .refl c
    · exact c.keeps_listOnce r.collection r.searchRoot

theorem remembers_sitesOf (r : Resolver) (source : DocumentId) (hits : List (Hit Embed)) :
    Remembers (r.sitesOf source hits) := by
  induction hits with
  | nil => exact .pure _
  | cons e rest ih =>
    cases hparse : Reference.parse? e.value.inner with
    | none => simpa [Remembers, sitesOf, hparse] using ih
    | some reference =>
      intro c
      simp only [sitesOf, hparse]
      exact (r.remembers_resolve reference source c).trans (ih _)

/-- Reading ahead forgets nothing. -/
theorem keeps_fetch (g : Collection) (ids : List DocumentId) (c : Cache) :
    c.Keeps (fetch g ids c) := by
  induction ids generalizing c with
  | nil => exact .refl c
  | cons id rest ih => exact (c.keeps_readOnce g id).trans (ih _)

end Resolver

namespace Lowering

theorem remembers_sitesOf {α : Type} {classify : α → Cache → Option Construct × Cache}
    (h : ∀ a, Remembers (classify a)) (hits : List (Hit α)) :
    Remembers (sitesOf classify hits) := by
  induction hits with
  | nil => exact .pure _
  | cons hit rest ih =>
    exact (h hit.value).bind fun construct =>
      ih.map fun sites => if construct.isSome then ⟨hit.span, construct⟩ :: sites else sites

theorem remembers_constructOfEmbed (l : Lowering) (source : DocumentId)
    (h : Embed × Option Text) : Remembers (l.constructOfEmbed source h.1 h.2) := by
  unfold constructOfEmbed
  cases Reference.parse? h.1.inner with
  | none => exact .pure _
  | some reference =>
    exact (l.resolver.remembers_resolve reference source).map
      (Option.map (embedConstruct h.1 h.2 reference))

theorem remembers_constructOfImage (l : Lowering) (source : DocumentId) (h : Embed × Text) :
    Remembers (l.constructOfImage source h.1 h.2) := by
  unfold constructOfImage
  cases imageReference? h.2 with
  | none => exact .pure _
  | some reference =>
    exact (l.resolver.remembers_resolve reference source).map
      (Option.map (imageConstruct h.1 reference))

theorem remembers_scan (l : Lowering) (t : Text) (source : DocumentId) :
    Remembers (l.scan t source) :=
  (remembers_sitesOf (l.remembers_constructOfEmbed source) _).bind fun embeds =>
    (remembers_sitesOf (l.remembers_constructOfImage source) _).map fun images =>
      arrange (l.fenceSites t ++ embeds ++ images)

end Lowering

/-! ### Weavings forget nothing -/

namespace Weaver

variable {σ : Type} {w : Weaver σ}

theorem remembers_ask (w : Weaver σ) (visited : List DocumentId) (site : σ) :
    Remembers (w.ask visited site) := by
  intro c
  unfold ask Collection.fetchPart
  cases w.asks site with
  | none => exact .refl c
  | some asked =>
    by_cases hv : asked.1 ∈ visited
    · simpa [hv] using Cache.Keeps.refl c
    · simpa [hv] using c.keeps_readOnce w.collection asked.1

/-- Filling sites forgets nothing, if bringing notes in does not. -/
theorem keeps_fillSites {bring : Bringing}
    (hbring : ∀ t d c out, bring t d c = some out → c.Keeps out.2)
    {source : DocumentId} {visited : List DocumentId} {sites : List σ} {c : Cache}
    {out : List (Span × Text) × List Warning × Cache}
    (h : w.fillSites bring source visited sites c = some out) : c.Keeps out.2.2 := by
  induction sites generalizing c out with
  | nil =>
    cases h
    exact .refl c
  | cons site rest ih =>
    have hkeeps := w.remembers_ask visited site c
    rcases hask : w.ask visited site c with ⟨_ | ⟨target, content⟩, c₁⟩ <;> rw [hask] at hkeeps
    · rw [fillSites_refused hask] at h
      obtain ⟨out', h', rfl⟩ := Option.map_eq_some_iff.mp h
      have hrest := ih h'
      exact hkeeps.trans hrest
    · rw [fillSites_granted hask] at h
      obtain ⟨inner, hinner, h⟩ := Option.bind_eq_some_iff.mp h
      obtain ⟨out', h', rfl⟩ := Option.map_eq_some_iff.mp h
      have hrest := ih h'
      exact hkeeps.trans ((hbring _ _ _ _ hinner).trans hrest)

/-- **A weaving forgets nothing**, if finding sites does not. -/
theorem keeps_weave? (hfind : ∀ t source visited, Remembers (w.find t source visited)) {t : Text}
    {source : DocumentId} {visited : List DocumentId} {c : Cache} {out : Woven × Cache}
    (h : w.weave? t source visited c = some out) : c.Keeps out.2 := by
  refine w.weave?_induct (P := fun _ _ _ c out => c.Keeps out.2) ?_ h
  intro bring ih t source visited c out h
  exact (hfind t source visited c).trans (keeps_fillSites (fun _ _ _ _ h => ih _ _ _ _ _ h) h)

theorem keeps_weave (hfind : ∀ t source visited, Remembers (w.find t source visited)) (t : Text)
    (source : DocumentId) (visited : List DocumentId) (c : Cache) :
    c.Keeps (w.weave t source visited c).2 := by
  unfold weave
  cases h : w.weave? t source visited c with
  | none => exact .refl c
  | some out => exact keeps_weave? hfind h

/-- What is seen stays, whether a weaving ends or not. -/
theorem seenThrough_weave {found : Text → DocumentId → Collection → List σ} (hfind : w.Finds found)
    (t : Text) (source : DocumentId) (visited : List DocumentId) (c : Cache) :
    w.collection.seenThrough (w.weave t source visited c).2 = w.collection.seenThrough c := by
  unfold weave
  cases h : w.weave? t source visited c with
  | none => rfl
  | some out => exact seenThrough_weave? hfind h

end Weaver

namespace Lowering

theorem keeps_pass (l : Lowering) (c : Cache) (t : Text) (source : DocumentId) :
    c.Keeps (l.pass c t source).2 :=
  Weaver.keeps_weave (fun t source _ => l.remembers_scan t source) t source [source] c

/-- **Passes forget nothing.** -/
theorem keeps_settle (l : Lowering) (source : DocumentId) (left made : Nat) (t : Text)
    (c : Cache) : c.Keeps (l.settle source left made t c).2 := by
  induction left generalizing made t c with
  | zero => exact .refl c
  | succ left ih =>
    rw [settle]
    simp only
    split
    · exact l.keeps_pass c t source
    · exact (l.keeps_pass c t source).trans (ih _ _ _)

/-- **Passes do not change what is seen.** -/
theorem seenThrough_settle (l : Lowering) (source : DocumentId) (left made : Nat) (t : Text)
    (c : Cache) :
    l.resolver.collection.seenThrough (l.settle source left made t c).2 =
      l.resolver.collection.seenThrough c := by
  have hpass := Weaver.seenThrough_weave l.finds_lowerer
  induction left generalizing made t c with
  | zero => rfl
  | succ left ih =>
    rw [settle]
    simp only
    split
    · exact hpass t source [source] c
    · exact (ih _ _ _).trans (hpass t source [source] c)

end Lowering

/-! ### Reading ahead in any order -/

/-- The order in which notes that are read ahead come in. It may be another one each time: the text
whose embeds ask for the notes, its document, the documents on the way down and the cache together
tell the times apart, since each time that a note comes in the cache grows. -/
structure ReadOrder where
  arrange : Text → DocumentId → List DocumentId → Cache → List DocumentId → List DocumentId
  perm : ∀ t source visited c ids, (arrange t source visited c ids).Perm ids

/-- Notes come in as they are listed. -/
def ReadOrder.listed : ReadOrder := ⟨fun _ _ _ _ ids => ids, fun _ _ _ _ ids => .refl ids⟩

namespace Resolver

/-- The embeds of a text outside its fences, resolved, with the notes they ask for read ahead; these
come in as `order` says. -/
def findEmbedsIn (order : ReadOrder) (r : Resolver) (t : Text) (source : DocumentId)
    (visited : List DocumentId) (c : Cache) : List ExpansionSite × Cache :=
  let (sites, c) := r.sitesOf source t.openEmbeds c
  let ids := pending visited c sites
  (sites, if ids.length < 2 then c
    else fetch r.collection (order.arrange t source visited c ids) c)

/-- Expands embeds, with notes that are read ahead coming in as `order` says. -/
def expanderIn (order : ReadOrder) (r : Resolver) : Weaver ExpansionSite :=
  { r.expander with find := r.findEmbedsIn order }

/-- Expands a text that stands in `source`, with notes that are read ahead coming in as `order`
says. -/
def expandIn (order : ReadOrder) (r : Resolver) (c : Cache) (t : Text) (source : DocumentId) :
    Woven × Cache :=
  (r.expanderIn order).weave t source [source] c

/-- Notes that come in as they are listed come in as they do in a conversion. -/
theorem expandIn_listed (r : Resolver) : r.expandIn .listed = r.expand := rfl

/-- Which embeds are found does not depend on the order. -/
theorem finds_expanderIn (order : ReadOrder) (r : Resolver) :
    (r.expanderIn order).Finds fun t source g => (r.over g).sitesIn t source := by
  intro t source visited
  have hsites := r.readsThrough_sitesOf source t.openEmbeds
  refine ⟨hsites.result, fun c => ?_⟩
  show r.collection.seenThrough (r.findEmbedsIn order t source visited c).2 = _
  unfold findEmbedsIn
  simp only
  split
  · exact hsites.seen c
  · exact (seenThrough_fetch _ _ _).trans (hsites.seen c)

theorem remembers_findEmbedsIn (order : ReadOrder) (r : Resolver) (t : Text)
    (source : DocumentId) (visited : List DocumentId) :
    Remembers (r.findEmbedsIn order t source visited) := by
  intro c
  unfold findEmbedsIn
  simp only
  split
  · exact r.remembers_sitesOf source t.openEmbeds c
  · exact (r.remembers_sitesOf source t.openEmbeds c).trans (keeps_fetch _ _ _)

end Resolver

end NotePress
