import NotePress.Proofs.Passes

/-!
# What a run reads

A weaving asks for documents, and so do the weavings of what it brings in (`Weaver.Asked`). These
are all it reads: in a collection in which they read the same, whatever the others read as, the
weaving is the same, with its warnings and with the cache it leaves (`Weaver.weave?_alike`). Notes
that are read ahead are asked for as well, so they make no difference.

`Resolver.expand_readingAs` and `Lowering.lower_readingAs` say so of the expansion of embeds and of
passes repeated until one changes nothing.
-/

namespace NotePress

/-- A collection whose documents read otherwise. -/
def Collection.readingAs (g : Collection) (read : DocumentId → Except AccessError Text) :
    Collection :=
  { g with read := read }

/-- Reading through a cache depends on what the one document reads as. -/
theorem Cache.readOnce_congr {g g' : Collection} {id : DocumentId} (h : g'.read id = g.read id)
    (c : Cache) : c.readOnce g' id = c.readOnce g id := by
  unfold readOnce
  rw [h]

namespace Weaver

variable {σ : Type}

/-- The documents that a weaving asks for and that are not on the way down: those that the sites of
the text ask for, and those that weaving what is brought into a site asks for. -/
inductive Asked (w : Weaver σ) (found : Text → DocumentId → List σ) (g : Collection) :
    Text → DocumentId → List DocumentId → DocumentId → Prop where
  | here {t : Text} {source : DocumentId} {visited : List DocumentId} {site : σ}
      {id : DocumentId} {part : Part} (hsite : site ∈ found t source)
      (hasks : w.asks site = some (id, part)) (hnew : id ∉ visited) :
      Asked w found g t source visited id
  | deeper {t : Text} {source : DocumentId} {visited : List DocumentId} {site : σ}
      {target : DocumentId} {content : Text} {id : DocumentId} (hsite : site ∈ found t source)
      (hok : w.answer visited site g = .ok (target, content))
      (h : Asked w found g content target (target :: visited) id) :
      Asked w found g t source visited id

/-- A weaving asks for documents of `S` only. -/
def AsksIn (w : Weaver σ) (found : Text → DocumentId → Collection → List σ) (g : Collection)
    (S : Set DocumentId) (t : Text) (source : DocumentId) (visited : List DocumentId) : Prop :=
  ∀ id, w.Asked (found · · g) g t source visited id → id ∈ S

/-- Weavers that do the same as long as documents of `S` are asked for. -/
structure AlikeOn (S : Set DocumentId) (w w' : Weaver σ)
    (found : Text → DocumentId → Collection → List σ) : Prop where
  span : w'.span = w.span
  asks : w'.asks = w.asks
  without : w'.without = w.without
  frame : w'.frame = w.frame
  read : ∀ id ∈ S, w'.collection.read id = w.collection.read id
  find : ∀ t source visited c,
    (∀ site ∈ found t source (w.collection.seenThrough c), ∀ id part,
      w.asks site = some (id, part) → id ∉ visited → id ∈ S) →
        w'.find t source visited c = w.find t source visited c

variable {w w' : Weaver σ} {found : Text → DocumentId → Collection → List σ} {S : Set DocumentId}

/-- **What one call asks for**, and what it brings in. -/
theorem asksIn_iff {g : Collection} {t : Text} {source : DocumentId} {visited : List DocumentId} :
    w.AsksIn found g S t source visited ↔ ∀ site ∈ found t source g,
      (∀ id part, w.asks site = some (id, part) → id ∉ visited → id ∈ S) ∧
        ∀ target content, w.answer visited site g = .ok (target, content) →
          w.AsksIn found g S content target (target :: visited) := by
  constructor
  · intro h site hsite
    exact ⟨fun id part hasks hnew => h id (.here hsite hasks hnew),
      fun target content hok id hid => h id (.deeper hsite hok hid)⟩
  · intro h id hid
    cases hid with
    | here hsite hasks hnew => exact (h _ hsite).1 id _ hasks hnew
    | deeper hsite hok hid => exact (h _ hsite).2 _ _ hok id hid

theorem AlikeOn.ask (h : AlikeOn S w w' found) {visited : List DocumentId} {site : σ}
    (hsite : ∀ id part, w.asks site = some (id, part) → id ∉ visited → id ∈ S) (c : Cache) :
    w'.ask visited site c = w.ask visited site c := by
  unfold Weaver.ask Collection.fetchPart
  rw [h.asks]
  cases hasks : w.asks site with
  | none => rfl
  | some asked =>
    obtain ⟨id, part⟩ := asked
    by_cases hv : id ∈ visited
    · simp only [hv, if_true]
    · simp only [hv, if_false, Cache.readOnce_congr (h.read id (hsite id part hasks hv))]

/-- Sites are filled alike by two weavers that answer them as `w` does, if what is brought in is
brought in alike. -/
theorem fillSites_alike {w₁ w₂ : Weaver σ} (w : Weaver σ) {bring bring' : Bringing}
    (hspan : w₂.span = w₁.span) (hwithout : w₂.without = w₁.without) (hframe : w₂.frame = w₁.frame)
    {source : DocumentId} {visited : List DocumentId} {sites : List σ} {g : Collection}
    (hask : ∀ site ∈ sites, ∀ c, w₁.ask visited site c = w.ask visited site c ∧
      w₂.ask visited site c = w.ask visited site c)
    (hbring : ∀ site ∈ sites, ∀ target content,
      w.answer visited site g = .ok (target, content) → ∀ c, w.collection.seenThrough c = g →
        ∀ inner, bring content target c = some inner →
          bring' content target c = some inner ∧ w.collection.seenThrough inner.2 = g)
    {c : Cache} (hc : w.collection.seenThrough c = g)
    {out : List (Span × Text) × List Warning × Cache}
    (h : w₁.fillSites bring source visited sites c = some out) :
    w₂.fillSites bring' source visited sites c = some out := by
  induction sites generalizing c out with
  | nil => exact h
  | cons site rest ih =>
    have ih := @ih (fun other hother => hask other (List.mem_cons_of_mem _ hother))
      fun other hother => hbring other (List.mem_cons_of_mem _ hother)
    obtain ⟨hask₁, hask₂⟩ := hask site (List.mem_cons_self ..) c
    rcases ha : w.ask visited site c with ⟨answer, c₁⟩
    have hc₁ := (seenThrough_ask w visited site ha).trans hc
    have hanswer := w.answer_of_ask visited site ha
    rw [hc] at hanswer
    rw [ha] at hask₁ hask₂
    rcases answer with why | ⟨target, content⟩
    · rw [fillSites_refused hask₁] at h
      obtain ⟨out', h', rfl⟩ := Option.map_eq_some_iff.mp h
      rw [fillSites_refused hask₂, ih hc₁ h', hwithout, hspan]
      rfl
    · rw [fillSites_granted hask₁] at h
      obtain ⟨inner, hinner, h⟩ := Option.bind_eq_some_iff.mp h
      obtain ⟨out', h', rfl⟩ := Option.map_eq_some_iff.mp h
      obtain ⟨hinner', hseen⟩ := hbring site (List.mem_cons_self ..) target content hanswer c₁ hc₁
        inner hinner
      rw [fillSites_granted hask₂, hinner', Option.bind_some, ih hseen h', hframe, hspan]
      rfl

/-- A weaving that ends is the same by a weaver that is alike. -/
theorem weave?_of_alike (h : AlikeOn S w w' found) (hfind : w.Finds found) {t : Text}
    {source : DocumentId} {visited : List DocumentId} {c : Cache} {out : Woven × Cache}
    (hrun : w.weave? t source visited c = some out)
    (hin : w.AsksIn found (w.collection.seenThrough c) S t source visited) :
    w'.weave? t source visited c = some out := by
  -- What is seen has to stay along the run, since what the later sites are granted depends on it.
  suffices hboth : w.collection.seenThrough out.2 = w.collection.seenThrough c ∧
      (w.AsksIn found (w.collection.seenThrough c) S t source visited →
        w'.weave? t source visited c = some out) from hboth.2 hin
  refine w.weave?_induct (P := fun t source visited c out =>
    w.collection.seenThrough out.2 = w.collection.seenThrough c ∧
      (w.AsksIn found (w.collection.seenThrough c) S t source visited →
        w'.weave? t source visited c = some out)) ?_ hrun
  intro bring ih t source visited c out hfill
  have hfound := hfind t source visited
  refine ⟨(seenThrough_fillSites (fun _ _ _ _ h => (ih _ _ _ _ _ h).1) hfill).trans
    (hfound.seen c), fun hin => ?_⟩
  have hin := asksIn_iff.mp hin
  have hfilled : w'.fillSites (fun content target => w'.weave? content target (target :: visited))
      source visited (w.find t source visited c).1 (w.find t source visited c).2 = some out := by
    rw [hfound.result] at hfill ⊢
    refine fillSites_alike w h.span h.without h.frame
      (fun site hsite c' => ⟨rfl, h.ask (hin site hsite).1 c'⟩) ?_ (hfound.seen c) hfill
    intro site hsite target content hok c' hc' inner hinner
    obtain ⟨hseen, hsame⟩ := ih _ _ _ _ _ hinner
    rw [hc'] at hseen hsame
    exact ⟨hsame ((hin site hsite).2 target content hok), hseen⟩
  rw [weave?_eq, h.find t source visited c fun site hsite => (hin site hsite).1, hfilled]
  rfl

/-- So is one that ends by the weaver that is alike. -/
theorem weave?_of_alike' (h : AlikeOn S w w' found) (hfind : w.Finds found) {t : Text}
    {source : DocumentId} {visited : List DocumentId} {c : Cache} {out : Woven × Cache}
    (hrun : w'.weave? t source visited c = some out)
    (hin : w.AsksIn found (w.collection.seenThrough c) S t source visited) :
    w.weave? t source visited c = some out := by
  refine w'.weave?_induct (P := fun t source visited c out =>
    w.AsksIn found (w.collection.seenThrough c) S t source visited →
      w.weave? t source visited c = some out) ?_ hrun hin
  intro bring ih t source visited c out hfill hin
  have hfound := hfind t source visited
  have hin := asksIn_iff.mp hin
  rw [h.find t source visited c fun site hsite => (hin site hsite).1] at hfill
  have hfilled : w.fillSites (fun content target => w.weave? content target (target :: visited))
      source visited (w.find t source visited c).1 (w.find t source visited c).2 = some out := by
    rw [hfound.result] at hfill ⊢
    refine fillSites_alike w h.span.symm h.without.symm h.frame.symm
      (fun site hsite c' => ⟨h.ask (hin site hsite).1 c', rfl⟩) ?_ (hfound.seen c) hfill
    intro site hsite target content hok c' hc' inner hinner
    have hsame := ih _ _ _ _ _ hinner
    rw [hc'] at hsame
    -- `w'` may see something else, so that `w` still sees the same is known from its own run.
    have hinner' := hsame ((hin site hsite).2 target content hok)
    exact ⟨hinner', (seenThrough_weave? hfind hinner').trans hc'⟩
  rw [weave?_eq, hfilled]
  rfl

/-- **A weaving reads what it asks for**, and nothing else. -/
theorem weave?_alike (h : AlikeOn S w w' found) (hfind : w.Finds found) {t : Text}
    {source : DocumentId} {visited : List DocumentId} {c : Cache}
    (hin : w.AsksIn found (w.collection.seenThrough c) S t source visited) :
    w'.weave? t source visited c = w.weave? t source visited c :=
  Option.ext fun _ => ⟨fun hrun => weave?_of_alike' h hfind hrun hin,
    fun hrun => weave?_of_alike h hfind hrun hin⟩

end Weaver

/-! ### Expanding -/

namespace Resolver

/-- Expanding a text asks for documents of `S` only. -/
def ReadsIn (r : Resolver) (c : Cache) (S : Set DocumentId) (t : Text) (source : DocumentId) :
    Prop :=
  r.expander.AsksIn (fun t source g => (r.over g).sitesIn t source) (r.collection.seenThrough c) S
    t source [source]

theorem fetch_readingAs {g : Collection} {read : DocumentId → Except AccessError Text}
    {ids : List DocumentId} (h : ∀ id ∈ ids, read id = g.read id) (c : Cache) :
    fetch (g.readingAs read) ids c = fetch g ids c := by
  induction ids generalizing c with
  | nil => rfl
  | cons id rest ih =>
    have hid : c.readOnce (g.readingAs read) id = c.readOnce g id :=
      Cache.readOnce_congr (h id (List.mem_cons_self ..)) c
    have ih := ih fun other hother => h other (List.mem_cons_of_mem _ hother)
    unfold fetch at ih ⊢
    rw [List.foldl_cons, List.foldl_cons, hid, ih]

theorem sitesOf_readingAs (r : Resolver) (read : DocumentId → Except AccessError Text)
    (source : DocumentId) (hits : List (Hit Embed)) (c : Cache) :
    (r.over (r.collection.readingAs read)).sitesOf source hits c = r.sitesOf source hits c := by
  induction hits generalizing c with
  | nil => rfl
  | cons e rest ih =>
    simp only [sitesOf, ih]
    rfl

/-- A note that is read ahead is asked for. -/
theorem asks_of_mem_pending {r : Resolver} {t : Text} {source id : DocumentId}
    {visited : List DocumentId} {c : Cache} (h : id ∈ pending visited c (r.sitesIn t source)) :
    id ∉ visited ∧ ∃ site ∈ r.sitesIn t source, ∃ part, site.asks = some (id, part) := by
  obtain ⟨hid, hnew⟩ := List.mem_filter.mp (List.mem_eraseDups.mp h)
  obtain ⟨site, hsite, htarget⟩ := List.mem_filterMap.mp hid
  simp only [Bool.and_eq_true, Bool.not_eq_true', List.contains_eq_mem, decide_eq_false_iff_not]
    at hnew
  refine ⟨hnew.1.2, site, hsite, ?_⟩
  obtain ⟨e, -, rfl⟩ := List.mem_map.mp hsite
  cases hparse : Reference.parse? e.value.inner with
  | none => simp [siteOf, hparse] at htarget
  | some reference =>
    refine ⟨reference.part, ?_⟩
    simp only [siteOf, hparse, Option.bind_some] at htarget
    simp [ExpansionSite.asks, siteOf, hparse, htarget, hnew.1.1]

theorem alikeOn_expander (r : Resolver) {read : DocumentId → Except AccessError Text}
    {S : Set DocumentId} (h : ∀ id ∈ S, read id = r.collection.read id) :
    Weaver.AlikeOn S r.expander (r.over (r.collection.readingAs read)).expander
      fun t source g => (r.over g).sitesIn t source where
  span := rfl
  asks := rfl
  without := rfl
  frame := rfl
  read := h
  find t source visited c hin := by
    have hsites := (r.readsThrough_sitesOf source t.openEmbeds).result c
    show (r.over (r.collection.readingAs read)).findEmbeds t source visited c =
      r.findEmbeds t source visited c
    unfold findEmbeds fetchPending
    simp only [sitesOf_readingAs]
    split
    · rfl
    · refine congrArg (Prod.mk _) (fetch_readingAs (fun id hid => h id ?_) _)
      rw [hsites] at hid
      obtain ⟨hnew, site, hsite, part, hasks⟩ := asks_of_mem_pending hid
      exact hin site hsite id part hasks hnew

/-- **An expansion reads what it asks for**, and nothing else. -/
theorem expand_readingAs {r : Resolver} {c : Cache} {S : Set DocumentId} {t : Text}
    {source : DocumentId} (hin : r.ReadsIn c S t source)
    {read : DocumentId → Except AccessError Text} (h : ∀ id ∈ S, read id = r.collection.read id) :
    (r.over (r.collection.readingAs read)).expand c t source = r.expand c t source := by
  unfold expand expandVisited Weaver.weave
  rw [Weaver.weave?_alike (r.alikeOn_expander h) r.finds_expander hin]

end Resolver

/-! ### Lowering -/

namespace Lowering

/-- A pass over a text asks for documents of `S` only. -/
def PassReadsIn (l : Lowering) (c : Cache) (S : Set DocumentId) (t : Text) (source : DocumentId) :
    Prop :=
  l.lowerer.AsksIn (fun t source g => (l.over g).sitesIn t source)
    (l.resolver.collection.seenThrough c) S t source [source]

/-- Every pass that lowering a text makes asks for documents of `S` only. -/
def ReadsIn (l : Lowering) (c : Cache) (S : Set DocumentId) (t : Text) (source : DocumentId) :
    Prop :=
  ∀ n < (l.lower c t source).1.passes, l.PassReadsIn c S (l.afterPasses c source t n) source

theorem alikeOn_lowerer (l : Lowering) {read : DocumentId → Except AccessError Text}
    {S : Set DocumentId} (h : ∀ id ∈ S, read id = l.resolver.collection.read id) :
    Weaver.AlikeOn S l.lowerer (l.over (l.resolver.collection.readingAs read)).lowerer
      fun t source g => (l.over g).sitesIn t source where
  span := rfl
  asks := rfl
  without := rfl
  frame := rfl
  read := h
  find _ _ _ _ _ := rfl

theorem pass_readingAs {l : Lowering} {c : Cache} {S : Set DocumentId} {t : Text}
    {source : DocumentId} (hin : l.PassReadsIn c S t source)
    {read : DocumentId → Except AccessError Text}
    (h : ∀ id ∈ S, read id = l.resolver.collection.read id) :
    (l.over (l.resolver.collection.readingAs read)).pass c t source = l.pass c t source := by
  unfold pass Weaver.weave
  rw [Weaver.weave?_alike (l.alikeOn_lowerer h) l.finds_lowerer hin]

/-- Passes read what they ask for: by induction on the number of passes that may still be made. -/
theorem settle_readingAs {l : Lowering} {c₀ : Cache} {S : Set DocumentId} {source : DocumentId}
    {read : DocumentId → Except AccessError Text}
    (h : ∀ id ∈ S, read id = l.resolver.collection.read id) {left made : Nat} {t : Text} {c : Cache}
    (hc : l.resolver.collection.seenThrough c = l.resolver.collection.seenThrough c₀)
    (hin : ∀ n < (l.settle source left made t c).1.passes - made,
      l.PassReadsIn c₀ S (l.afterPasses c₀ source t n) source) :
    (l.over (l.resolver.collection.readingAs read)).settle source left made t c =
      l.settle source left made t c := by
  induction left generalizing made t c with
  | zero => rfl
  | succ left ih =>
    have hnext : (l.pass c t source).1 = l.passText c₀ source t := passText_congr hc
    have hseen := (seenThrough_pass l c t source).trans hc
    have hmade : made < (l.settle source (left + 1) made t c).1.passes := by
      rw [settle]
      simp only
      split
      · exact Nat.lt_succ_self _
      · exact (settle_text hseen).1
    have hfirst : l.PassReadsIn c S t source := by
      unfold PassReadsIn
      rw [hc]
      exact hin 0 (by omega)
    rw [settle, settle]
    simp only [pass_readingAs hfirst h]
    split
    · rfl
    · rename_i hchanged
      -- What is pass `n` from here on is pass `n + 1` of those that `hin` speaks of.
      refine ih hseen fun n hn => ?_
      have hlater := hin (n + 1) (by
        rw [settle]
        simp only [if_neg hchanged]
        omega)
      rw [hnext]
      exact hlater

/-- **Lowering reads what its passes ask for**, and nothing else. -/
theorem lower_readingAs {l : Lowering} {c : Cache} {S : Set DocumentId} {t : Text}
    {source : DocumentId} (hin : l.ReadsIn c S t source)
    {read : DocumentId → Except AccessError Text}
    (h : ∀ id ∈ S, read id = l.resolver.collection.read id) :
    (l.over (l.resolver.collection.readingAs read)).lower c t source = l.lower c t source :=
  settle_readingAs h rfl hin

end Lowering

end NotePress
