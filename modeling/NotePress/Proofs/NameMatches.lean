import Mathlib.Data.Char
import Mathlib.Data.List.Lex
import NotePress.Collection.Memory
import NotePress.Proofs.Enclosure

/-!
# Matching by name

What a reference means when neither the index nor its own path finds a document. `DocumentId.Named`
says which documents go by a name, without regard to case, and `DocumentId.Precedes` which of two is
taken. That is a strict order in which any two ids compare (`Precedes.trichotomous`), so the
document that is taken is told by the ones that are listed, and not by the order they are listed in.

`name_matches` says so of a collection in memory. Whatever way a document is found, the collection
contains it.
-/

namespace NotePress

/-- **A path ends in a wanted one**: it is that, or has it behind a slash. -/
def EndsAt (path wanted : Text) : Prop := path = wanted ∨ ∃ front, path = front ++ '/' :: wanted

namespace DocumentId

/-- **A document goes by a name**, given in lower case: its path in lower case ends in it, or in it
with the ending of notes. -/
def Named (id : DocumentId) (wanted : Text) : Prop :=
  EndsAt id.path.lower wanted ∨ EndsAt id.path.lower (wanted ++ noteEnding)

/-- **Which of two documents is taken**: the one with fewer slashes in its path, and else the one
with the lesser path. -/
def Precedes (a b : DocumentId) : Prop :=
  a.depth < b.depth ∨ a.depth = b.depth ∧ a.path < b.path

variable {a b c : DocumentId}

theorem Precedes.irrefl (a : DocumentId) : ¬a.Precedes a := by
  rintro (h | ⟨-, h⟩)
  · exact absurd h (Nat.lt_irrefl _)
  · exact absurd h (lt_irrefl _)

theorem Precedes.trans (h : a.Precedes b) (h' : b.Precedes c) : a.Precedes c := by
  rcases h with h | ⟨h, hpath⟩
  · rcases h' with h' | ⟨h', -⟩
    · exact .inl (Nat.lt_trans h h')
    · exact .inl (h' ▸ h)
  · rcases h' with h' | ⟨h', hpath'⟩
    · exact .inl (h ▸ h')
    · exact .inr ⟨h.trans h', lt_trans hpath hpath'⟩

theorem Precedes.trichotomous (a b : DocumentId) : a.Precedes b ∨ a = b ∨ b.Precedes a := by
  rcases Nat.lt_trichotomy a.depth b.depth with h | h | h
  · exact .inl (.inl h)
  · rcases lt_trichotomy a.path b.path with hpath | hpath | hpath
    · exact .inl (.inr ⟨h, hpath⟩)
    · exact .inr (.inl (ext_path hpath))
    · exact .inr (.inr (.inr ⟨h.symm, hpath⟩))
  · exact .inr (.inr (.inl h))

end DocumentId

/-! ### The best match -/

namespace Resolver

variable {a b id : DocumentId} {path wanted : Text} {ids listing : List DocumentId}

theorem endsWithPath_iff : endsWithPath path wanted = true ↔ EndsAt path wanted := by
  unfold endsWithPath EndsAt Text.dropEnding?
  cases hfront : wanted.isSuffixOf? path with
  | none =>
    have hnot : ∀ front, front ++ wanted ≠ path := fun front heq => by
      rw [List.isSuffixOf?_eq_some_iff_append_eq.mpr heq] at hfront
      cases hfront
    refine iff_of_false Bool.false_ne_true ?_
    rintro (rfl | ⟨front, rfl⟩)
    · exact hnot [] rfl
    · exact hnot (front ++ ['/']) (by simp)
  | some front =>
    obtain rfl := List.isSuffixOf?_eq_some_iff_append_eq.mp hfront
    simp only [Bool.or_eq_true, List.isEmpty_iff, decide_eq_true_eq, List.getLast?_eq_some_iff]
    constructor
    · rintro (rfl | ⟨outer, rfl⟩)
      · exact .inl rfl
      · exact .inr ⟨outer, by simp⟩
    · rintro (h | ⟨outer, h⟩)
      · exact .inl (List.append_left_eq_self.mp h)
      · exact .inr ⟨outer, List.append_cancel_right (h.trans (by simp))⟩

/-- Matching is going by the name. -/
theorem matchesName_iff : matchesName wanted id = true ↔ id.Named wanted := by
  unfold matchesName DocumentId.Named
  rw [Bool.or_eq_true, endsWithPath_iff, endsWithPath_iff]

theorem preferred_iff : preferred a b = true ↔ a.Precedes b := by
  simp [preferred, DocumentId.Precedes, DocumentId.lt, Text.lt]

theorem best?_eq_none_iff : best? ids = none ↔ ids = [] := by
  cases ids with
  | nil => simp [best?]
  | cons first rest =>
    rw [best?]
    cases best? rest with
    | none => simp
    | some b =>
      simp only
      split <;> simp

/-- The best of some ids goes before all other ones. -/
theorem precedes_of_best? (h : best? ids = some id) :
    ∀ other ∈ ids, other = id ∨ id.Precedes other := by
  induction ids generalizing id with
  | nil => cases h
  | cons first rest ih =>
    rw [best?] at h
    cases hbest : best? rest with
    | none =>
      rw [hbest] at h
      cases h
      rw [best?_eq_none_iff.mp hbest]
      exact fun other hother => .inl (List.mem_singleton.mp hother)
    | some b =>
      rw [hbest] at h
      simp only at h
      split at h
      · rename_i hpreferred
        cases h
        exact List.forall_mem_cons.mpr ⟨.inr (preferred_iff.mp hpreferred), ih hbest⟩
      · rename_i hnot
        cases h
        refine List.forall_mem_cons.mpr ⟨.inl rfl, fun other hother => ?_⟩
        -- the first id is the best of the rest or goes before it
        rcases DocumentId.Precedes.trichotomous first b with hlt | rfl | hgt
        · rcases ih hbest other hother with rfl | hother
          · exact .inr hlt
          · exact .inr (hlt.trans hother)
        · exact ih hbest other hother
        · exact absurd (preferred_iff.mpr hgt) hnot

/-- **The best of some ids** is the one that goes before all other ones. -/
theorem best?_eq_some_iff : best? ids = some id ↔
    id ∈ ids ∧ ∀ other ∈ ids, other = id ∨ id.Precedes other := by
  refine ⟨fun h => ⟨mem_of_best? h, precedes_of_best? h⟩, fun ⟨hmem, hleast⟩ => ?_⟩
  cases hbest : best? ids with
  | none =>
    rw [best?_eq_none_iff.mp hbest] at hmem
    cases hmem
  | some best =>
    rcases hleast best (mem_of_best? hbest) with rfl | hlt
    · rfl
    · rcases precedes_of_best? hbest id hmem with rfl | hgt
      · rfl
      · exact absurd (hlt.trans hgt) (DocumentId.Precedes.irrefl id)

/-- **The best match** in a listing. -/
theorem bestMatch?_eq_some_iff : bestMatch? wanted listing = some id ↔
    (id ∈ listing ∧ id.Named wanted) ∧
      ∀ other ∈ listing, other.Named wanted → other = id ∨ id.Precedes other := by
  unfold bestMatch?
  simp only [best?_eq_some_iff, List.mem_filter, matchesName_iff, and_imp]

theorem bestMatch?_eq_none_iff : bestMatch? wanted listing = none ↔
    ∀ id ∈ listing, ¬id.Named wanted := by
  unfold bestMatch?
  simp only [best?_eq_none_iff, List.filter_eq_nil_iff, matchesName_iff]

variable {r : Resolver} {reference : Reference} {source : DocumentId}

/-- Through a coherent cache a reference means what it does without one. -/
theorem resolve_fst_of_coherent {c : Cache} (hc : c.Coherent r.collection) :
    (r.resolve c reference source).1 = r.meaning reference source := by
  rw [(r.readsThrough_resolve reference source).result c, Cache.coherent_iff.mp hc]
  rfl

/-- **Matching by name** is what is left when the index and the paths find nothing. -/
theorem meaning_of_missed (h : r.resolveExact? reference.target source = none) :
    r.meaning reference source =
      if (DocumentId.ofPath reference.target).path.lower = [] then none
      else bestMatch? (DocumentId.ofPath reference.target).path.lower
        (r.collection.list r.searchRoot) := by
  unfold meaning
  rw [h]

/-- What the index and the paths miss. -/
theorem resolveExact?_eq_none_iff {target : Text} : r.resolveExact? target source = none ↔
    r.collection.resolve target source = none ∧ r.collection.contains (.ofPath target) = false ∧
      r.collection.contains (.ofPath ((DocumentId.ofPath target).path ++ noteEnding)) = false := by
  unfold resolveExact?
  cases r.collection.resolve target source with
  | some id => simp
  | none => simp only [List.find?_eq_none, List.mem_cons, List.not_mem_nil, or_false,
      forall_eq_or_imp, forall_eq, Bool.not_eq_true, true_and]

end Resolver

/-! ### Collections in memory -/

namespace MemoryVault

variable {g : MemoryVault} {id : DocumentId} {root : Option Text}

/-- **The documents below a directory**, or all of them. -/
def Lists (g : MemoryVault) (root : Option Text) (id : DocumentId) : Prop :=
  g.contains id = true ∧ listingStart root <+: id.path

theorem contains_iff : g.contains id = true ↔ id ∈ g.documents.map (·.1) := by
  simp [contains, List.lookup_isSome_iff]

theorem mem_list_iff : id ∈ g.list root ↔ g.Lists root id := by
  rw [list, List.mem_filter, Lists, contains_iff, Text.startsWith, List.isPrefixOf_iff_prefix]

end MemoryVault

/-- A collection that lists its documents in another way. -/
def Collection.listingAs (g : Collection) (list : Option Text → List DocumentId) : Collection :=
  { g with list := list }

variable {g : MemoryVault} {root : Option Text} {list : Option Text → List DocumentId} {c : Cache}

/-- **Matching by name.** A collection in memory lists its documents in some order, perhaps more
than once, and a coherent cache may hold the listing. When the index finds nothing for a reference
and its path names no document, with or without the ending of notes, then nothing is found just when
nothing is asked for or no listed document goes by the name; and the document that is found is the
listed one that goes by the name and is taken before all others that do. Whatever is found, by the
index, by its path or by its name, is in the collection. -/
theorem name_matches (hlist : ∀ id, id ∈ list root ↔ g.Lists root id)
    (hc : c.Coherent (g.toCollection.listingAs list)) (reference : Reference)
    (source : DocumentId) :
    let r : Resolver := ⟨g.toCollection.listingAs list, root⟩
    let exact := DocumentId.ofPath reference.target
    let wanted := exact.path.lower
    (r.collection.resolve reference.target source = none → g.contains exact = false →
      g.contains (.ofPath (exact.path ++ noteEnding)) = false →
        ((r.resolve c reference source).1 = none ↔
          wanted = [] ∨ ∀ id, g.Lists root id → ¬id.Named wanted) ∧
        ∀ id, (r.resolve c reference source).1 = some id ↔
          wanted ≠ [] ∧ g.Lists root id ∧ id.Named wanted ∧
            ∀ other, g.Lists root other → other.Named wanted → other = id ∨ id.Precedes other) ∧
    ∀ id, (r.resolve c reference source).1 = some id → g.contains id = true := by
  intro r exact wanted
  rw [r.resolve_fst_of_coherent hc]
  refine ⟨fun hindex hpath hending => ?_, fun id hid => ?_⟩
  · rw [r.meaning_of_missed (r.resolveExact?_eq_none_iff.mpr ⟨hindex, hpath, hending⟩)]
    have hlisted : ∀ id, id ∈ r.collection.list r.searchRoot ↔ g.Lists root id := hlist
    by_cases hwanted : wanted = []
    · simp [hwanted, wanted, exact]
    · rw [if_neg hwanted]
      refine ⟨?_, fun id => ?_⟩
      · simp only [Resolver.bestMatch?_eq_none_iff, hlisted, hwanted, false_or, wanted, exact]
      · simp only [Resolver.bestMatch?_eq_some_iff, hlisted, ne_eq, hwanted, not_false_eq_true,
          true_and, and_assoc, wanted, exact]
  · rcases Resolver.meaning_cases hid with hindex | ⟨-, ⟨hcontains, -⟩ | hmem⟩
    · exact List.find?_some hindex
    · exact hcontains
    · exact ((hlist id).mp hmem).1

/-- Of the notes that go by a name one is deeper and one comes later in the order of paths; the
cache holds them in another order, and twice. -/
theorem name_matches_least :
    let g : MemoryVault := .ofDocuments
      (["a/x/zoe", "b/Zoe.md", "b/deep/a.md", "a/zoe.md"].map fun p => (.ofPath p.toList, [])) []
    let list : Option Text → List DocumentId := fun _ => (g.list none).reverse ++ g.list none
    let c : Cache := ⟨[], [(none, list none)]⟩
    let r : Resolver := ⟨g.toCollection.listingAs list, none⟩
    let found := DocumentId.ofPath "a/zoe.md".toList
    ((∀ id, id ∈ list none ↔ g.Lists none id) ∧ c.Coherent r.collection) ∧
      (r.resolve c ⟨"ZOE".toList, none, none, none, none⟩ (.ofPath "b/deep/a.md".toList)).1 =
        some found ∧
      found.Named "zoe".toList ∧
      ∀ other, g.Lists none other → other.Named "zoe".toList →
        other = found ∨ found.Precedes other := by
  intro g list c r found
  have hlist : ∀ id, id ∈ list none ↔ g.Lists none id := fun id => by
    simp only [list, List.mem_append, List.mem_reverse, or_self, MemoryVault.mem_list_iff]
  have hc : c.Coherent r.collection := by
    refine ⟨fun _ _ h => (nomatch h), fun root listing h => ?_⟩
    cases root with
    | none => exact Option.some.inj h
    | some _ => cases h
  have hmatches := name_matches hlist hc ⟨"ZOE".toList, none, none, none, none⟩
    (.ofPath "b/deep/a.md".toList)
  have hfound := (hmatches.1 (by decide +kernel) (by decide +kernel) (by decide +kernel)).2 found
  have hresolve : (r.resolve c ⟨"ZOE".toList, none, none, none, none⟩
      (.ofPath "b/deep/a.md".toList)).1 = some found := by decide +kernel
  obtain ⟨-, -, hnamed, hleast⟩ := hfound.mp hresolve
  have hlower : (DocumentId.ofPath "ZOE".toList).path.lower = "zoe".toList := by decide +kernel
  rw [hlower] at hnamed hleast
  exact ⟨⟨hlist, hc⟩, hresolve, hnamed, hleast⟩

end NotePress
