import NotePress.Conversion.Prepared
import NotePress.Proofs.Lists
import NotePress.Proofs.Passes
import NotePress.Proofs.Remembering

/-!
# Runs without a cache

A reference for expanding and lowering: nothing is remembered and nothing is read ahead, every note
is read and every listing is made where it is needed (`Weaver.weaveAnew?`, `Lowering.lowerAnew?`,
`Prepared.anew?`). Through a coherent cache a weaving ends if and only if the reference ends, with
the same result (`Weaver.weaveAnew?_eq_some_iff`): one direction is by induction over weavings that
end through the cache, the other by induction over those of the reference.

`conversions_as_anew` puts that together for the expansion of embeds, for passes repeated until one
changes nothing, and for a prepared note, under every order in which notes that are read ahead come
in. What is prepared once more through the warmed cache is the same.
-/

namespace NotePress

/-! ### Weaving anew -/

namespace Weaver

variable {σ : Type}

/-- Fills one site, its note read anew: what takes its place, if it does not keep its own text, and
the warnings. -/
def fillAnew? (w : Weaver σ) (bring : Text → DocumentId → Option Woven) (source : DocumentId)
    (visited : List DocumentId) (site : σ) : Option (Option (Span × Text) × List Warning) :=
  match w.answer visited site w.collection with
  | .error why =>
    some ((w.without source site why).1.map (w.span site, ·), (w.without source site why).2)
  | .ok (target, content) =>
    (bring content target).map fun inner =>
      (some (w.span site, w.frame site inner.text), inner.warnings)

/-- Weaves a text with every note read anew, if that ends. The sites are those that `found` finds,
each filled by itself. -/
def weaveAnew? (w : Weaver σ) (found : Text → DocumentId → List σ) (t : Text)
    (source : DocumentId) (visited : List DocumentId) : Option Woven := do
  let filled ← (found t source).mapM fun site =>
    match w.answer visited site w.collection with
    | .error why =>
      some ((w.without source site why).1.map (w.span site, ·), (w.without source site why).2)
    | .ok (target, content) => do
      let inner ← (w.weaveAnew? (t := content)) found target (target :: visited)
      return (some (w.span site, w.frame site inner.text), inner.warnings)
  return ⟨t.splice (filled.filterMap (·.1)), filled.flatMap (·.2)⟩
partial_fixpoint

variable {w : Weaver σ} {found : Text → DocumentId → List σ}

theorem weaveAnew?_eq (w : Weaver σ) (found : Text → DocumentId → List σ) (t : Text)
    (source : DocumentId) (visited : List DocumentId) :
    w.weaveAnew? found t source visited =
      ((found t source).mapM (w.fillAnew? (fun content target =>
        w.weaveAnew? found content target (target :: visited)) source visited)).map fun filled =>
          ⟨t.splice (filled.filterMap (·.1)), filled.flatMap (·.2)⟩ := by
  rw [weaveAnew?, Option.map_eq_bind]
  unfold fillAnew?
  simp only [Option.map_eq_bind]
  rfl

/-- To show something of every weaving anew that ends, show it of a text when it holds of what is
brought into its sites. -/
theorem weaveAnew?_induct {P : Text → DocumentId → List DocumentId → Prop}
    (step : ∀ t source visited, (∀ site ∈ found t source, ∀ target content,
      w.answer visited site w.collection = .ok (target, content) →
        P content target (target :: visited)) → P t source visited)
    {t : Text} {source : DocumentId} {visited : List DocumentId} {woven : Woven}
    (h : w.weaveAnew? found t source visited = some woven) : P t source visited := by
  refine weaveAnew?.partial_correctness w
    (fun other t source visited _ => other = found → P t source visited)
    (fun bring ih other t source visited woven hrun hsame => ?_) found t source visited woven h rfl
  subst hsame
  obtain ⟨filled, hfilled, -⟩ := Option.bind_eq_some_iff.mp hrun
  refine step t source visited fun site hsite target content hok => ?_
  have hsome := isSome_of_mapM hfilled site hsite
  simp only [hok] at hsome
  cases hinner : bring other content target (target :: visited) with
  | none =>
    rw [hinner] at hsome
    cases hsome
  | some inner => exact ih _ _ _ _ _ hinner rfl

/-- How the sites are found through a cache is nothing to a weaving anew. -/
theorem weaveAnew?_find (w : Weaver σ)
    (find : Text → DocumentId → List DocumentId → Cache → List σ × Cache)
    (found : Text → DocumentId → List σ) :
    ({ w with find := find } : Weaver σ).weaveAnew? found = w.weaveAnew? found := by
  with_unfolding_all rfl

section

variable {found : Text → DocumentId → Collection → List σ} {t : Text} {source : DocumentId}
  {visited : List DocumentId} {c : Cache}

/-- A weaving through a coherent cache that ends is what weaving anew gives. -/
theorem weaveAnew?_of_weave? (hfind : w.Finds found)
    (hc : w.collection.seenThrough c = w.collection) (h : (w.weave? t source visited c).isSome) :
    w.weaveAnew? (found · · w.collection) t source visited =
      some (w.weave t source visited c).1 := by
  refine w.weave_induct hfind (P := fun t source visited =>
    w.weaveAnew? (found · · w.collection) t source visited =
      some (w.weave t source visited c).1) (fun t source visited hends ih => ?_) h
  rw [hc] at ih
  -- Each site is filled by itself in both runs, so it is enough to compare them site by site.
  have hfill : ∀ site ∈ found t source w.collection,
      w.fillAnew? (fun content target =>
        w.weaveAnew? (found · · w.collection) content target (target :: visited)) source visited
          site = some ((w.filled c source visited site).1.map (w.span site, ·),
            (w.filled c source visited site).2) := by
    intro site hsite
    unfold fillAnew? filled
    rw [hc]
    cases hanswer : w.answer visited site w.collection with
    | error why => rfl
    | ok granted =>
      obtain ⟨target, content⟩ := granted
      simp only [ih site hsite target content hanswer]
      rfl
  rw [weaveAnew?_eq, mapM_eq_some_map hfill, (weave_eq hfind hends).1, hc, Option.map_some,
    List.filterMap_map, List.flatMap_map]
  rfl

/-- A weaving anew that ends does so through a coherent cache as well. -/
theorem isSome_weave?_of_anew (hfind : w.Finds found)
    (hc : w.collection.seenThrough c = w.collection) {woven : Woven}
    (h : w.weaveAnew? (found · · w.collection) t source visited = some woven) :
    (w.weave? t source visited c).isSome := by
  refine w.weaveAnew?_induct (P := fun t source visited => ∀ c,
    w.collection.seenThrough c = w.collection → (w.weave? t source visited c).isSome) ?_ h c hc
  exact fun t source visited ih c hc => weave?_isSome_of_granted hfind hc ih

/-- **Weaving through a coherent cache is weaving anew.** -/
theorem weaveAnew?_eq_some_iff (hfind : w.Finds found)
    (hc : w.collection.seenThrough c = w.collection) {woven : Woven} :
    w.weaveAnew? (found · · w.collection) t source visited = some woven ↔
      (w.weave? t source visited c).isSome ∧ (w.weave t source visited c).1 = woven := by
  constructor
  · intro h
    have hends := isSome_weave?_of_anew hfind hc h
    rw [weaveAnew?_of_weave? hfind hc hends] at h
    exact ⟨hends, Option.some.inj h⟩
  · rintro ⟨hends, rfl⟩
    exact weaveAnew?_of_weave? hfind hc hends

/-- A text whose weaving does not end stays as it is, through a cache as without one. -/
theorem weave_fst (hfind : w.Finds found) (hc : w.collection.seenThrough c = w.collection) :
    (w.weave t source visited c).1 =
      (w.weaveAnew? (found · · w.collection) t source visited).getD ⟨t, []⟩ := by
  cases hends : w.weave? t source visited c with
  | some out =>
    rw [weaveAnew?_of_weave? hfind hc (by rw [hends]; rfl), Option.getD_some]
  | none =>
    cases hanew : w.weaveAnew? (found · · w.collection) t source visited with
    | none =>
      unfold weave
      rw [hends]
      rfl
    | some woven =>
      have hsome := isSome_weave?_of_anew hfind hc hanew
      rw [hends] at hsome
      cases hsome

end

end Weaver

/-! ### Expanding, lowering and preparing anew -/

/-- Expands a text that stands in `source`, reading and listing anew each time. -/
def Resolver.expandAnew? (r : Resolver) (t : Text) (source : DocumentId) : Option Woven :=
  r.expander.weaveAnew? r.sitesIn t source [source]

namespace Lowering

/-- One pass, reading and listing anew each time. -/
def passAnew? (l : Lowering) (t : Text) (source : DocumentId) : Option Text :=
  (l.lowerer.weaveAnew? l.sitesIn t source [source]).map (·.text)

/-- Repeats passes until one changes nothing, reading and listing anew each time. -/
def settleAnew? (l : Lowering) (source : DocumentId) :
    (left made : Nat) → Text → Option LoweringOutcome
  | 0, made, t => some ⟨t, made, false⟩
  | left + 1, made, t =>
    (l.passAnew? t source).bind fun next =>
      if next = t then some ⟨t, made + 1, true⟩ else l.settleAnew? source left (made + 1) next

/-- Lowers a text that stands in `source`, reading and listing anew each time. -/
def lowerAnew? (l : Lowering) (t : Text) (source : DocumentId) : Option LoweringOutcome :=
  l.settleAnew? source passLimit 0 t

/-- Every pass that lowering makes ends. -/
def LowerEnds (l : Lowering) (c : Cache) (t : Text) (source : DocumentId) : Prop :=
  ∀ n < (l.lower c t source).1.passes, l.PassEnds c source (l.afterPasses c source t n)

end Lowering

namespace Prepared

/-- What is prepared from what the two steps give. -/
def assemble (p : Profile) (expansion : Woven) (outcome : LoweringOutcome) : Prepared :=
  ⟨outcome.text, Preamble.compose p.customHeader p.labels,
    expansion.warnings ++
      if outcome.converged then [] else [Warning.notConverged outcome.passes]⟩

/-- Prepares a text that stands in `source`, reading and listing anew each time. -/
def anew? (g : Collection) (t : Text) (source : DocumentId) (p : Profile)
    (format : ExportFormat) : Option Prepared :=
  ((Resolver.within g none).expandAnew? t source).bind fun expansion =>
    ((Lowering.of g p format.keepsTex).lowerAnew? expansion.text source).map (assemble p expansion)

/-- Prepares a text that stands in `source`, with notes that are read ahead coming in as `order`
says. -/
def ofIn (order : ReadOrder) (g : Collection) (c : Cache) (t : Text) (source : DocumentId)
    (p : Profile) (format : ExportFormat) : Prepared × Cache :=
  let (expansion, c) := (Resolver.within g none).expandIn order c t source
  let (outcome, c) := (Lowering.of g p format.keepsTex).lower c expansion.text source
  (assemble p expansion outcome, c)

-- Read ahead in the order in which they are listed, the notes come in as they do in a conversion.
example : ofIn .listed = of := rfl

end Prepared

/-- A run through the cache `c` ends if and only if the run without a cache does, with the same
result. Afterwards the cache is coherent and has forgotten nothing. -/
structure RunsAsAnew {α : Type} (g : Collection) (c : Cache) (ends : Prop) (run : α × Cache)
    (anew? : Option α) : Prop where
  result : ∀ a, anew? = some a ↔ ends ∧ run.1 = a
  coherent : run.2.Coherent g
  keeps : c.Keeps run.2

/-! ### Through a coherent cache -/

namespace Resolver

variable {r : Resolver} {c : Cache}

/-- An expansion ends. -/
def ExpandEnds (order : ReadOrder) (r : Resolver) (c : Cache) (t : Text) (source : DocumentId) :
    Prop :=
  ((r.expanderIn order).weave? t source [source] c).isSome

/-- **An expansion through a coherent cache**, whatever the order in which notes come in. -/
theorem expandIn_as_anew (order : ReadOrder) (h : c.Coherent r.collection) (t : Text)
    (source : DocumentId) :
    RunsAsAnew r.collection c (r.ExpandEnds order c t source) (r.expandIn order c t source)
      (r.expandAnew? t source) where
  result woven := by
    have hc := Cache.coherent_iff.mp h
    rw [expandAnew?, ← Weaver.weaveAnew?_find r.expander (r.findEmbedsIn order)]
    exact Weaver.weaveAnew?_eq_some_iff (r.finds_expanderIn order) hc
  coherent := by
    have hc := Cache.coherent_iff.mp h
    exact Cache.coherent_iff.mpr
      ((Weaver.seenThrough_weave (r.finds_expanderIn order) t source [source] c).trans hc)
  keeps := Weaver.keeps_weave (r.remembers_findEmbedsIn order) t source [source] c

/-- An expansion whose notes come in as they are listed. -/
theorem expand_as_anew (h : c.Coherent r.collection) (t : Text) (source : DocumentId) :
    RunsAsAnew r.collection c (r.ExpandEnds .listed c t source) (r.expand c t source)
      (r.expandAnew? t source) := by
  rw [← r.expandIn_listed]
  exact r.expandIn_as_anew .listed h t source

/-- Two expansions through coherent caches give the same. -/
theorem expandIn_fst_eq (order again : ReadOrder) {c' : Cache} (h : c.Coherent r.collection)
    (h' : c'.Coherent r.collection) (t : Text) (source : DocumentId) :
    (r.expandIn again c' t source).1 = (r.expandIn order c t source).1 := by
  have hfst : ∀ (order : ReadOrder) {c : Cache}, c.Coherent r.collection →
      (r.expandIn order c t source).1 = (r.expandAnew? t source).getD ⟨t, []⟩ := by
    intro order c h
    rw [expandAnew?, ← Weaver.weaveAnew?_find r.expander (r.findEmbedsIn order)]
    exact Weaver.weave_fst (r.finds_expanderIn order) (Cache.coherent_iff.mp h)
  rw [hfst again h', hfst order h]

end Resolver

namespace Lowering

variable {l : Lowering} {c : Cache} {source : DocumentId}

theorem passAnew?_eq_some_iff (hc : l.resolver.collection.seenThrough c = l.resolver.collection)
    {t next : Text} :
    l.passAnew? t source = some next ↔ l.PassEnds c source t ∧ l.passText c source t = next := by
  have hanew : ∀ woven, l.lowerer.weaveAnew? l.sitesIn t source [source] = some woven ↔
      l.PassEnds c source t ∧ (l.lowerer.weave t source [source] c).1 = woven := fun _ =>
    Weaver.weaveAnew?_eq_some_iff l.finds_lowerer hc
  unfold passAnew?
  rw [Option.map_eq_some_iff]
  constructor
  · rintro ⟨woven, hwoven, rfl⟩
    obtain ⟨hends, rfl⟩ := (hanew woven).mp hwoven
    exact ⟨hends, rfl⟩
  · rintro ⟨hends, rfl⟩
    exact ⟨_, (hanew _).mpr ⟨hends, rfl⟩, rfl⟩

/-- **Passes through a coherent cache**: by induction on the number of passes that may still be
made. -/
theorem settleAnew?_eq_some_iff
    (hc : l.resolver.collection.seenThrough c = l.resolver.collection) {left made : Nat}
    {t : Text} {c' : Cache}
    (hc' : l.resolver.collection.seenThrough c' = l.resolver.collection.seenThrough c)
    {outcome : LoweringOutcome} :
    l.settleAnew? source left made t = some outcome ↔
      (∀ n < (l.settle source left made t c').1.passes - made,
        l.PassEnds c source (l.afterPasses c source t n)) ∧
          (l.settle source left made t c').1 = outcome := by
  induction left generalizing made t c' with
  | zero => simp [settleAnew?, settle]
  | succ left ih =>
    have hnext : (l.pass c' t source).1 = l.passText c source t := passText_congr hc'
    rw [settleAnew?, Option.bind_eq_some_iff, settle]
    simp only [hnext, passAnew?_eq_some_iff hc]
    by_cases hsame : l.passText c source t = t
    · simp [hsame, afterPasses]
    · have hseen := (seenThrough_pass l c' t source).trans hc'
      obtain ⟨hle, -, -⟩ := @settle_text l c source (l.passText c source t) left (made + 1) _ hseen
      -- The passes from here on are this one and those after it, counted from the next text.
      have hpasses : ∀ {k}, made + 1 ≤ k →
          ((∀ n < k - made, l.PassEnds c source (l.afterPasses c source t n)) ↔
            l.PassEnds c source t ∧ ∀ n < k - (made + 1),
              l.PassEnds c source (l.afterPasses c source (l.passText c source t) n)) := by
        intro k hk
        rw [show k - made = k - (made + 1) + 1 by omega, Nat.forall_lt_succ_left]
        rfl
      simp only [hsame, if_false, ih hseen, hpasses hle, and_assoc, exists_and_left,
        exists_eq_left']

/-- **Lowering through a coherent cache.** -/
theorem lower_as_anew (h : c.Coherent l.resolver.collection) (t : Text) (source : DocumentId) :
    RunsAsAnew l.resolver.collection c (l.LowerEnds c t source) (l.lower c t source)
      (l.lowerAnew? t source) where
  result _ := settleAnew?_eq_some_iff (Cache.coherent_iff.mp h) rfl
  coherent := Cache.coherent_iff.mpr
    ((l.seenThrough_settle source passLimit 0 t c).trans (Cache.coherent_iff.mp h))
  keeps := l.keeps_settle source passLimit 0 t c

end Lowering

namespace Prepared

variable {g : Collection} {c : Cache}

/-- Both steps of preparing a note end. -/
def PrepareEnds (order : ReadOrder) (g : Collection) (c : Cache) (t : Text) (source : DocumentId)
    (p : Profile) (format : ExportFormat) : Prop :=
  let expansion := (Resolver.within g none).expandIn order c t source
  (Resolver.within g none).ExpandEnds order c t source ∧
    (Lowering.of g p format.keepsTex).LowerEnds expansion.2 expansion.1.text source

/-- **Preparing a note through a coherent cache**: the cache that the expansion leaves is coherent,
and the lowering works through it. -/
theorem ofIn_as_anew (order : ReadOrder) (h : c.Coherent g) (t : Text) (source : DocumentId)
    (p : Profile) (format : ExportFormat) :
    RunsAsAnew g c (PrepareEnds order g c t source p format) (ofIn order g c t source p format)
      (anew? g t source p format) := by
  have hexpand := (Resolver.within g none).expandIn_as_anew order h t source
  have hlower := (Lowering.of g p format.keepsTex).lower_as_anew hexpand.coherent
    ((Resolver.within g none).expandIn order c t source).1.text source
  refine ⟨fun prepared => ?_, hlower.coherent, hexpand.keeps.trans hlower.keeps⟩
  unfold anew?
  rw [Option.bind_eq_some_iff]
  constructor
  · rintro ⟨expansion, hexpansion, hrest⟩
    obtain ⟨hends, rfl⟩ := (hexpand.result expansion).mp hexpansion
    obtain ⟨outcome, houtcome, rfl⟩ := Option.map_eq_some_iff.mp hrest
    obtain ⟨hends', rfl⟩ := (hlower.result outcome).mp houtcome
    exact ⟨⟨hends, hends'⟩, rfl⟩
  · rintro ⟨⟨hends, hends'⟩, rfl⟩
    refine ⟨_, (hexpand.result _).mpr ⟨hends, rfl⟩, ?_⟩
    rw [(hlower.result _).mpr ⟨hends', rfl⟩]
    rfl

/-- Notes prepared through two coherent caches are the same. -/
theorem ofIn_fst_eq (order again : ReadOrder) {c' : Cache} (h : c.Coherent g)
    (h' : c'.Coherent g) (t : Text) (source : DocumentId) (p : Profile) (format : ExportFormat) :
    (ofIn again g c' t source p format).1 = (ofIn order g c t source p format).1 := by
  have hexpand := (Resolver.within g none).expandIn_as_anew order h t source
  have hexpand' := (Resolver.within g none).expandIn_as_anew again h' t source
  have hseen : g.seenThrough ((Resolver.within g none).expandIn again c' t source).2 =
      g.seenThrough ((Resolver.within g none).expandIn order c t source).2 :=
    (Cache.coherent_iff.mp hexpand'.coherent).trans (Cache.coherent_iff.mp hexpand.coherent).symm
  have hlower := @Lowering.settle_congr (Lowering.of g p format.keepsTex)
    ((Resolver.within g none).expandIn order c t source).2 source
    ((Resolver.within g none).expandIn order c t source).1.text Lowering.passLimit 0 _ hseen
  unfold ofIn Lowering.lower
  simp only
  rw [(Resolver.within g none).expandIn_fst_eq order again h h', hlower]

end Prepared

/-- **Conversions are as without a cache.** Through a coherent cache, and whatever the order in
which notes that are read ahead come in, expanding, lowering and preparing a note end if and only if
they do with every note read and every listing made anew, and give the same. Afterwards the cache is
coherent and has forgotten nothing; so what is prepared through it once more, or through any other
coherent cache, is the same. -/
theorem conversions_as_anew (l : Lowering) {c : Cache} (h : c.Coherent l.resolver.collection)
    (order again : ReadOrder) (t : Text) (source : DocumentId) (p : Profile)
    (format : ExportFormat) :
    let g := l.resolver.collection
    let prepared := Prepared.ofIn order g c t source p format
    RunsAsAnew g c (l.resolver.ExpandEnds order c t source) (l.resolver.expandIn order c t source)
      (l.resolver.expandAnew? t source) ∧
    RunsAsAnew g c (l.LowerEnds c t source) (l.lower c t source) (l.lowerAnew? t source) ∧
    RunsAsAnew g c (Prepared.PrepareEnds order g c t source p format) prepared
      (Prepared.anew? g t source p format) ∧
    (Prepared.ofIn again g prepared.2 t source p format).1 = prepared.1 ∧
    ∀ other : Cache, other.Coherent g →
      (Prepared.ofIn again g other t source p format).1 = prepared.1 := by
  intro g prepared
  have hprepared := Prepared.ofIn_as_anew order h t source p format
  exact ⟨l.resolver.expandIn_as_anew order h t source, l.lower_as_anew h t source, hprepared,
    Prepared.ofIn_fst_eq order again h hprepared.coherent t source p format,
    fun _ hother => Prepared.ofIn_fst_eq order again h hother t source p format⟩

/-- A cache that remembers one of the notes. -/
def halfWarm : Cache := Cache.empty.insert (.ofPath "b.md".toList) "![[A.md]] ![[b]]".toList

theorem coherent_halfWarm : halfWarm.Coherent mutualVault.toCollection :=
  (Cache.coherent_empty _).insert (by decide +kernel)

/-- Notes come in with the last one first. -/
def ReadOrder.reversed : ReadOrder :=
  ⟨fun _ _ _ _ ids => ids.reverse, fun _ _ _ _ ids => ids.reverse_perm⟩

/-- Two notes that embed each other, with one of them in the cache. -/
theorem conversions_as_anew_mutual :
    let l := Lowering.of mutualVault.toCollection {} true
    let g := mutualVault.toCollection
    let t := "![[a]] ![[b]]".toList
    let source := DocumentId.ofPath "main.md".toList
    let prepared := Prepared.ofIn .reversed g halfWarm t source {} .pdf
    halfWarm.Coherent g ∧
    RunsAsAnew g halfWarm (l.resolver.ExpandEnds .reversed halfWarm t source)
      (l.resolver.expandIn .reversed halfWarm t source) (l.resolver.expandAnew? t source) ∧
    RunsAsAnew g halfWarm (l.LowerEnds halfWarm t source) (l.lower halfWarm t source)
      (l.lowerAnew? t source) ∧
    RunsAsAnew g halfWarm (Prepared.PrepareEnds .reversed g halfWarm t source {} .pdf) prepared
      (Prepared.anew? g t source {} .pdf) ∧
    (Prepared.ofIn .listed g prepared.2 t source {} .pdf).1 = prepared.1 ∧
    ∀ other : Cache, other.Coherent g →
      (Prepared.ofIn .listed g other t source {} .pdf).1 = prepared.1 :=
  ⟨coherent_halfWarm, conversions_as_anew (Lowering.of mutualVault.toCollection {} true)
    coherent_halfWarm .reversed .listed _ _ _ _⟩

end NotePress
