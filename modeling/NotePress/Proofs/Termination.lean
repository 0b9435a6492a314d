import Mathlib.Data.Set.Card
import NotePress.Collection.Memory
import NotePress.Proofs.Arrangement
import NotePress.Proofs.Weaving

/-!
# Weaving ends

Notes may embed each other and themselves, so the recursion follows no structure: it goes down a
graph that may have cycles. What bounds it are the documents on the way down. A part of a note is
brought in only if the note is not among them and can be read, so every call of the recursion has
one more document on its way down, taken from those that can be read (`Weaver.Calls.enters`). With
finitely many of those, the number that is not yet on the way down goes down with every call
(`Weaver.weave?_isSome`), and a chain of calls is no longer than their number
(`Weaver.Calls.chain_length`).

`expansion_and_pass_end` says both of the expansion of embeds and of a pass of the lowering, through
any cache.
-/

namespace NotePress

/-- The documents that can be read. -/
def Collection.readable (g : Collection) : Set DocumentId := {id | ∃ text, g.read id = .ok text}

/-- What a list of entries has an entry for is finite. -/
theorem finite_setOf_lookup {α : Type} (entries : List (DocumentId × α)) :
    {id | ∃ a, entries.lookup id = some a}.Finite := by
  refine (entries.map (·.1)).finite_toSet.subset ?_
  rintro id ⟨a, ha⟩
  obtain ⟨before, after, hsplit, -⟩ := List.lookup_eq_some_iff.mp ha
  simp [hsplit]

/-- A collection in memory has finitely many documents. -/
theorem MemoryVault.finite_readable (g : MemoryVault) : g.toCollection.readable.Finite := by
  refine (finite_setOf_lookup g.documents).subset ?_
  rintro id ⟨text, hread⟩
  have hread : g.read id = .ok text := hread
  unfold read at hread
  split at hread
  · cases hread
  · cases hlookup : g.documents.lookup id with
    | none => simp [hlookup] at hread
    | some found => exact ⟨found, hlookup⟩

/-- A cache adds finitely many documents to those that can be read. -/
theorem Collection.finite_readable_seenThrough {g : Collection} (h : g.readable.Finite)
    (c : Cache) : (g.seenThrough c).readable.Finite := by
  refine (h.union (finite_setOf_lookup c.texts)).subset ?_
  rintro id ⟨text, hread⟩
  have hread : (c.readOnce g id).1 = .ok text := hread
  rw [Cache.readOnce_fst] at hread
  cases hlookup : c.get? id with
  | none =>
    rw [hlookup] at hread
    exact .inl ⟨text, hread⟩
  | some found => exact .inr ⟨found, hlookup⟩

/-- The documents that some reference means and that can be read. -/
def Resolver.reachable (r : Resolver) : Set DocumentId :=
  {id | (∃ reference source, r.meaning reference source = some id) ∧ id ∈ r.collection.readable}

namespace Weaver

variable {σ : Type}

/-- One call of the recursion: a text with its document, the documents on the way down, and the
cache. -/
structure Call where
  text : Text
  source : DocumentId
  visited : List DocumentId
  cache : Cache

/-- The calls that one call makes: one for each site that a part of a note is brought into, when the
sites in front of it are filled. -/
inductive Calls (w : Weaver σ) : Call → Call → Prop where
  | bring {k : Call} {before after : List σ} {site : σ}
      {filled : List (Span × Text) × List Warning × Cache} {target : DocumentId} {content : Text}
      {c : Cache}
      (hfind : (w.find k.text k.source k.visited k.cache).1 = before ++ site :: after)
      (hbefore : w.fillSites (fun content target => w.weave? content target (target :: k.visited))
        k.source k.visited before (w.find k.text k.source k.visited k.cache).2 = some filled)
      (hask : w.ask k.visited site filled.2.2 = (.ok (target, content), c)) :
      Calls w k ⟨content, target, target :: k.visited, c⟩

/-- The documents that sites of a weaver ask for are among those of `D`, whatever is seen. -/
def AsksFor (w : Weaver σ) (found : Text → DocumentId → Collection → List σ)
    (D : Collection → Set DocumentId) : Prop :=
  ∀ t source g, ∀ site ∈ found t source g, ∀ target part,
    w.asks site = some (target, part) → target ∈ D g

/-! ### What one call does -/

variable {w : Weaver σ} {found : Text → DocumentId → Collection → List σ}
  {D : Collection → Set DocumentId}

/-- **A call goes one document down**: to one that is asked for, can be read, and is not on the way
down yet. What is seen stays. -/
theorem Calls.enters (hfind : w.Finds found) (hasks : w.AsksFor found D) {k k' : Call}
    (h : w.Calls k k') :
    k'.source ∉ k.visited ∧ k'.visited = k'.source :: k.visited ∧
      w.collection.seenThrough k'.cache = w.collection.seenThrough k.cache ∧
      k'.source ∈ D (w.collection.seenThrough k.cache) ∧
      k'.source ∈ (w.collection.seenThrough k.cache).readable := by
  cases h with
  | @bring before after site filled target content c hsites hbefore hask =>
    have hseen : w.collection.seenThrough filled.2.2 = w.collection.seenThrough k.cache :=
      (seenThrough_fillSites (fun _ _ _ _ h => seenThrough_weave? hfind h) hbefore).trans
        ((hfind k.text k.source k.visited).seen k.cache)
    have hanswer := w.answer_of_ask k.visited site hask
    rw [hseen] at hanswer
    obtain ⟨part, raw, hpart, hnew, hread, -⟩ := answer_eq_ok_iff.mp hanswer
    have hsite : site ∈ found k.text k.source (w.collection.seenThrough k.cache) := by
      rw [← (hfind k.text k.source k.visited).result, hsites]
      simp
    exact ⟨hnew, rfl, (seenThrough_ask w _ _ hask).trans hseen,
      hasks _ _ _ site hsite target part hpart, raw, hread⟩

/-- **The documents that a chain of calls enters** are distinct, none of them is on the way down
when it starts, and each can be read and is asked for. -/
theorem Calls.chain (hfind : w.Finds found) (hasks : w.AsksFor found D) {k : Call}
    {calls : List Call} (h : List.IsChain w.Calls (k :: calls)) :
    (calls.map (·.source)).Nodup ∧ ∀ k' ∈ calls, k'.source ∉ k.visited ∧
      k'.source ∈ D (w.collection.seenThrough k.cache) ∩
        (w.collection.seenThrough k.cache).readable := by
  induction calls generalizing k with
  | nil => simp
  | cons k₁ rest ih =>
    obtain ⟨hcall, hrest⟩ := List.isChain_cons_cons.mp h
    obtain ⟨hnew, hdown, hseen, hasked, hread⟩ := hcall.enters hfind hasks
    obtain ⟨hnodup, hall⟩ := ih hrest
    rw [hdown, hseen] at hall
    constructor
    · rw [List.map_cons, List.nodup_cons]
      refine ⟨fun hmem => ?_, hnodup⟩
      obtain ⟨k', hk', e⟩ := List.mem_map.mp hmem
      exact (hall k' hk').1 (e ▸ List.mem_cons_self ..)
    · intro k' hk'
      rcases List.mem_cons.mp hk' with rfl | hk'
      · exact ⟨hnew, hasked, hread⟩
      · exact ⟨fun hmem => (hall k' hk').1 (List.mem_cons_of_mem _ hmem), (hall k' hk').2⟩

/-- A chain of calls is no longer than the number of documents that can be entered. -/
theorem Calls.chain_length (hfind : w.Finds found) (hasks : w.AsksFor found D) {k : Call}
    (hfin : (D (w.collection.seenThrough k.cache) ∩
      (w.collection.seenThrough k.cache).readable).Finite)
    {calls : List Call} (h : List.IsChain w.Calls (k :: calls)) :
    calls.length ≤ (D (w.collection.seenThrough k.cache) ∩
      (w.collection.seenThrough k.cache).readable).ncard := by
  obtain ⟨hnodup, hall⟩ := Calls.chain hfind hasks h
  have hsub : ((calls.map (·.source)).toFinset : Set DocumentId) ⊆
      D (w.collection.seenThrough k.cache) ∩ (w.collection.seenThrough k.cache).readable := by
    intro id hid
    obtain ⟨k', hk', rfl⟩ := List.mem_map.mp (List.mem_toFinset.mp hid)
    exact (hall k' hk').2
  calc calls.length = (calls.map (·.source)).toFinset.card := by
        rw [List.toFinset_card_of_nodup hnodup, List.length_map]
    _ = ((calls.map (·.source)).toFinset : Set DocumentId).ncard := (Set.ncard_coe_finset _).symm
    _ ≤ _ := Set.ncard_le_ncard hsub hfin

/-- The calls nested in `k` enter distinct documents of `D` that are not on the way down at `k`, and
nest no deeper than `D` has documents. -/
def EntersOnce (w : Weaver σ) (k : Call) (D : Set DocumentId) : Prop :=
  ∀ calls, List.IsChain w.Calls (k :: calls) →
    (calls.map (·.source)).Nodup ∧ (∀ k' ∈ calls, k'.source ∉ k.visited ∧ k'.source ∈ D) ∧
      calls.length ≤ D.ncard

theorem entersOnce (hfind : w.Finds found) (hasks : w.AsksFor found D) {k : Call}
    (hfin : (D (w.collection.seenThrough k.cache) ∩
      (w.collection.seenThrough k.cache).readable).Finite) :
    w.EntersOnce k (D (w.collection.seenThrough k.cache) ∩
      (w.collection.seenThrough k.cache).readable) := fun _ h =>
  have hchain := Calls.chain hfind hasks h
  ⟨hchain.1, hchain.2, Calls.chain_length hfind hasks hfin h⟩

/-! ### Every call ends -/

/-- **Weaving ends**: by induction on the number of documents that can be read and are not on the
way down yet. -/
theorem weave?_isSome (hfind : w.Finds found) {g : Collection} (hfin : g.readable.Finite)
    (t : Text) (source : DocumentId) (visited : List DocumentId) {c : Cache}
    (hc : w.collection.seenThrough c = g) : (w.weave? t source visited c).isSome := by
  induction hn : (g.readable \ {id | id ∈ visited}).ncard using Nat.strong_induction_on
    generalizing t source visited c with
  | _ n ih =>
    refine weave?_isSome_of_granted hfind hc fun site _ target content hok c₁ hc₁ => ?_
    obtain ⟨part, raw, -, hnew, hread, -⟩ := answer_eq_ok_iff.mp hok
    refine ih _ ?_ content target (target :: visited) hc₁ rfl
    rw [← hn]
    have hsub : g.readable \ {id | id ∈ target :: visited} ⊆ g.readable \ {id | id ∈ visited} :=
      fun id h => ⟨h.1, fun hv => h.2 (List.mem_cons_of_mem _ hv)⟩
    have hmem : target ∈ g.readable \ {id | id ∈ visited} := ⟨⟨raw, hread⟩, hnew⟩
    exact Set.ncard_lt_ncard ((Set.ssubset_iff_of_subset hsub).mpr
      ⟨target, hmem, fun h => h.2 (List.mem_cons_self ..)⟩) (hfin.subset Set.sdiff_subset)

end Weaver

/-! ### What sites ask for -/

namespace Lowering

/-- A fence asks for no note. -/
theorem asks_eq_none_of_mem_fenceSites {l : Lowering} {t : Text} {site : LoweringSite}
    (h : site ∈ l.fenceSites t) : site.asks = none := by
  obtain ⟨f, -, rfl⟩ := List.mem_map.mp h
  unfold LoweringSite.asks constructOfFence
  split
  · rename_i hconstruct
    split at hconstruct
    · cases hconstruct
    · simp only at hconstruct
      split at hconstruct <;> cases hconstruct
  · rfl

/-- An embed asks for the note that its reference means. -/
theorem embedMeant_asks {l : Lowering} {source : DocumentId} {h : Embed × Option Text}
    {construct : Construct} (hmeant : l.embedMeant source h = some construct) {span : Span}
    {target : DocumentId} {part : Part}
    (hasks : (⟨span, some construct⟩ : LoweringSite).asks = some (target, part)) :
    ∃ reference, l.resolver.meaning reference source = some target := by
  obtain ⟨reference, -, hconstruct⟩ := Option.bind_eq_some_iff.mp hmeant
  obtain ⟨id, hmeans, rfl⟩ := Option.map_eq_some_iff.mp hconstruct
  refine ⟨reference, hmeans.trans ?_⟩
  simp only [LoweringSite.asks, embedConstruct] at hasks
  split at hasks
  · rename_i hconstruct
    split at hconstruct <;> cases hconstruct
    cases hasks
    rfl
  · cases hasks

/-- A note image asks for the note that its reference means. -/
theorem imageMeant_asks {l : Lowering} {source : DocumentId} {h : Embed × Text}
    {construct : Construct} (hmeant : l.imageMeant source h = some construct) {span : Span}
    {target : DocumentId} {part : Part}
    (hasks : (⟨span, some construct⟩ : LoweringSite).asks = some (target, part)) :
    ∃ reference, l.resolver.meaning reference source = some target := by
  obtain ⟨reference, -, hconstruct⟩ := Option.bind_eq_some_iff.mp hmeant
  obtain ⟨id, hmeans, rfl⟩ := Option.map_eq_some_iff.mp hconstruct
  cases hasks
  exact ⟨reference, hmeans⟩

/-- A construct asks for a document that a reference means. -/
theorem asksFor_lowerer (l : Lowering) :
    l.lowerer.AsksFor (fun t source g => (l.over g).sitesIn t source)
      (fun g => {id | ∃ reference source,
        (l.resolver.over g).meaning reference source = some id}) := by
  intro t source g site hsite target part hasks
  rcases List.mem_append.mp (mem_of_mem_arrange hsite) with hsite | hsite
  · rcases List.mem_append.mp hsite with hsite | hsite
    · rw [show l.lowerer.asks site = site.asks from rfl,
        asks_eq_none_of_mem_fenceSites hsite] at hasks
      cases hasks
    · obtain ⟨e, -, he⟩ := List.mem_filterMap.mp hsite
      obtain ⟨construct, hmeant, rfl⟩ := Option.map_eq_some_iff.mp he
      obtain ⟨reference, hmeans⟩ := embedMeant_asks hmeant hasks
      exact ⟨reference, source, hmeans⟩
  · obtain ⟨e, -, he⟩ := List.mem_filterMap.mp hsite
    obtain ⟨construct, hmeant, rfl⟩ := Option.map_eq_some_iff.mp he
    obtain ⟨reference, hmeans⟩ := imageMeant_asks hmeant hasks
    exact ⟨reference, source, hmeans⟩

end Lowering

/-! ### Expanding and lowering -/

/-- An embed asks for a document that its reference means. -/
theorem Resolver.asksFor_expander (r : Resolver) :
    r.expander.AsksFor (fun t source g => (r.over g).sitesIn t source)
      (fun g => {id | ∃ reference source, (r.over g).meaning reference source = some id}) := by
  intro t source g site hsite target part hasks
  obtain ⟨e, -, rfl⟩ := List.mem_map.mp hsite
  simp only [expander, ExpansionSite.asks, siteOf] at hasks
  cases hparse : Reference.parse? e.value.inner with
  | none => simp [hparse] at hasks
  | some reference =>
    cases hmeans : (r.over g).meaning reference source with
    | none => simp [hparse, hmeans] at hasks
    | some id =>
      simp only [hparse, Option.bind_some, hmeans, Option.ite_none_right_eq_some,
        Option.some.injEq, Prod.mk.injEq] at hasks
      exact ⟨reference, source, hasks.2.1 ▸ hmeans⟩

/-- **Expanding and lowering end**, from any initial documents on the way down; and every chain of
nested calls enters distinct documents, none of them on the way down when it starts, and is no
longer than the number of documents that can be resolved and read. -/
theorem expansion_and_pass_end (l : Lowering) (t : Text) (source : DocumentId)
    (visited : List DocumentId) (c : Cache)
    (hfin : l.resolver.collection.readable.Finite) :
    (l.resolver.expander.weave? t source visited c =
        some (l.resolver.expandVisited c t source visited) ∧
      l.resolver.expander.EntersOnce ⟨t, source, visited, c⟩
        (l.resolver.seenThrough c).reachable) ∧
    (∃ woven c', l.lowerer.weave? t source [source] c = some (woven, c') ∧
        l.pass c t source = (woven.text, c')) ∧
      l.lowerer.EntersOnce ⟨t, source, [source], c⟩ (l.resolver.seenThrough c).reachable := by
  have hfin := Collection.finite_readable_seenThrough hfin c
  refine ⟨⟨?_, ?_⟩, ?_, ?_⟩
  · obtain ⟨out, hout⟩ := Option.isSome_iff_exists.mp
      (Weaver.weave?_isSome l.resolver.finds_expander hfin t source visited rfl)
    unfold Resolver.expandVisited Weaver.weave
    rw [hout, Option.getD_some]
  · exact Weaver.entersOnce l.resolver.finds_expander l.resolver.asksFor_expander
      (hfin.subset Set.inter_subset_right)
  · obtain ⟨out, hout⟩ := Option.isSome_iff_exists.mp
      (Weaver.weave?_isSome l.finds_lowerer hfin t source [source] rfl)
    refine ⟨out.1, out.2, hout, ?_⟩
    unfold Lowering.pass Weaver.weave
    rw [hout, Option.getD_some]
  · exact Weaver.entersOnce l.finds_lowerer l.asksFor_lowerer
      (hfin.subset Set.inter_subset_right)

/-- Two notes that embed each other, the second one itself as well. -/
def mutualVault : MemoryVault :=
  ⟨[(.ofPath "a.md".toList, "![[b]]".toList), (.ofPath "b.md".toList, "![[A.md]] ![[b]]".toList)],
    []⟩

/-- A note that comes back to itself through another one. -/
theorem mutual_expansion_and_pass_end :
    let l := Lowering.of mutualVault.toCollection {} true
    let source := DocumentId.ofPath "a.md".toList
    (l.resolver.expander.weave? "![[b]]".toList source [source] .empty =
        some (l.resolver.expandVisited .empty "![[b]]".toList source [source]) ∧
      l.resolver.expander.EntersOnce ⟨"![[b]]".toList, source, [source], .empty⟩
        (l.resolver.seenThrough .empty).reachable) ∧
    (∃ woven c', l.lowerer.weave? "![[b]]".toList source [source] .empty = some (woven, c') ∧
        l.pass .empty "![[b]]".toList source = (woven.text, c')) ∧
      l.lowerer.EntersOnce ⟨"![[b]]".toList, source, [source], .empty⟩
        (l.resolver.seenThrough .empty).reachable :=
  expansion_and_pass_end (Lowering.of mutualVault.toCollection {} true) _ _ _ _
    mutualVault.finite_readable

end NotePress
