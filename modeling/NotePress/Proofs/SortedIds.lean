import Mathlib.Data.Char
import Mathlib.Data.List.Lex
import Mathlib.Data.List.Sort
import NotePress.Collection.Memory
import NotePress.Document.Order

/-!
# Ids in order

Ids are in order (`DocumentId.Ordered`) when each path comes before those behind it; so no id stands
there twice, and lists in order with the same ids are the same (`Ordered.eq_of_mem_iff`). Sorting
moves ids and puts them in order (`ordered_sort`). A collection in memory keeps its documents in
order of their ids, whatever order they come in and however often (`MemoryVault.ordered_ids`).
-/

namespace NotePress

namespace DocumentId

variable {a b id : DocumentId} {ids others : List DocumentId}

theorem lt_iff : a.lt b = true ↔ a.path < b.path := by simp [lt, Text.lt]

/-- **Ids in the order of their paths**, each once. -/
def Ordered (ids : List DocumentId) : Prop := ids.Pairwise fun a b => a.path < b.path

/-- Ids in order are known by what they are. -/
theorem Ordered.eq_of_mem_iff (h : Ordered ids) (h' : Ordered others)
    (hmem : ∀ id, id ∈ ids ↔ id ∈ others) : ids = others := by
  have : Std.Irrefl fun a b : DocumentId => a.path < b.path := ⟨fun a => lt_irrefl a.path⟩
  have : Std.Antisymm fun a b : DocumentId => a.path < b.path :=
    ⟨fun _ _ hab hba => absurd hab hba.asymm⟩
  exact List.Pairwise.eq_of_mem_iff h h' hmem

/-! ### Sorting -/

theorem perm_insertSorted (id : DocumentId) (ids : List DocumentId) :
    (insertSorted id ids).Perm (id :: ids) := by
  induction ids with
  | nil => exact .refl _
  | cons other rest ih =>
    unfold insertSorted
    split
    · exact .refl _
    · exact (ih.cons other).trans (.swap ..)

/-- Sorting moves ids. -/
theorem perm_sort (ids : List DocumentId) : (sort ids).Perm ids := by
  have hfrom : ∀ kept : List DocumentId,
      (ids.foldl (fun kept id => insertSorted id kept) kept).Perm (kept ++ ids) := by
    induction ids with
    | nil => simp
    | cons id rest ih =>
      intro kept
      exact (ih _).trans (((perm_insertSorted id kept).append_right rest).trans
        List.perm_middle.symm)
  exact hfrom []

theorem pairwise_insertSorted (id : DocumentId) (h : ids.Pairwise fun a b => a.path ≤ b.path) :
    (insertSorted id ids).Pairwise fun a b => a.path ≤ b.path := by
  induction ids with
  | nil => exact List.pairwise_singleton ..
  | cons other rest ih =>
    obtain ⟨hother, hrest⟩ := List.pairwise_cons.mp h
    unfold insertSorted
    split
    · rename_i hlt
      have hle : id.path ≤ other.path := (lt_iff.mp hlt).le
      exact List.pairwise_cons.mpr
        ⟨List.forall_mem_cons.mpr ⟨hle, fun b hb => hle.trans (hother b hb)⟩, h⟩
    · rename_i hnot
      have hle : other.path ≤ id.path := le_of_not_gt (mt lt_iff.mpr hnot)
      refine List.pairwise_cons.mpr ⟨fun b hb => ?_, ih hrest⟩
      rcases mem_insertSorted.mp hb with rfl | hb
      · exact hle
      · exact hother b hb

/-- **Sorted ids are in order** if none stands there twice. -/
theorem ordered_sort (h : ids.Nodup) : Ordered (sort ids) := by
  have hsorted : (sort ids).Pairwise fun a b => a.path ≤ b.path :=
    List.foldlRecOn ids _ .nil fun _ hkept id _ => pairwise_insertSorted id hkept
  have hdistinct : (sort ids).Pairwise (· ≠ ·) := (perm_sort ids).nodup_iff.mpr h
  refine (hdistinct.and hsorted).imp ?_
  rintro a b ⟨hne, hle⟩
  exact lt_of_le_of_ne hle fun heq => hne (ext_path heq)

end DocumentId

/-! ### Documents in memory -/

section

variable {α : Type} {id other : DocumentId} {entries : List (DocumentId × α)}

theorem mem_ids_insertEntry (a : α) :
    other ∈ (insertEntry id a entries).map (·.1) ↔ other = id ∨ other ∈ entries.map (·.1) := by
  induction entries with
  | nil => simp [insertEntry]
  | cons e rest ih =>
    unfold insertEntry
    split
    · rename_i heq
      simp [heq]
    · split
      · simp
      · rw [List.map_cons, List.mem_cons, ih, List.map_cons, List.mem_cons, or_left_comm]

/-- An entry that is put in its place leaves the ids in order. -/
theorem ordered_insertEntry (a : α) (h : DocumentId.Ordered (entries.map (·.1))) :
    DocumentId.Ordered ((insertEntry id a entries).map (·.1)) := by
  induction entries with
  | nil => exact List.pairwise_singleton ..
  | cons e rest ih =>
    obtain ⟨he, hrest⟩ := List.pairwise_cons.mp h
    unfold insertEntry
    split
    · rename_i heq
      exact List.pairwise_cons.mpr ⟨heq ▸ he, hrest⟩
    · rename_i hne
      split
      · rename_i hlt
        have hlt := DocumentId.lt_iff.mp hlt
        exact List.pairwise_cons.mpr
          ⟨List.forall_mem_cons.mpr ⟨hlt, fun b hb => hlt.trans (he b hb)⟩, h⟩
      · rename_i hnot
        have hle : e.1.path ≤ id.path := le_of_not_gt (mt DocumentId.lt_iff.mpr hnot)
        refine List.pairwise_cons.mpr ⟨fun b hb => ?_, ih hrest⟩
        rcases (mem_ids_insertEntry a).mp hb with rfl | hb
        · exact lt_of_le_of_ne hle fun heq => hne (DocumentId.ext_path heq.symm)
        · exact he b hb

end

namespace MemoryVault

variable {documents : List (DocumentId × Text)} {failing : List DocumentId}

theorem mem_ids_ofDocuments {id : DocumentId} :
    id ∈ (ofDocuments documents failing).documents.map (·.1) ↔ id ∈ documents.map (·.1) := by
  have hfrom : ∀ kept : List (DocumentId × Text),
      id ∈ (documents.foldl (fun kept d => insertEntry d.1 d.2 kept) kept).map (·.1) ↔
        id ∈ kept.map (·.1) ∨ id ∈ documents.map (·.1) := by
    induction documents with
    | nil => simp
    | cons d rest ih =>
      intro kept
      rw [List.foldl_cons, ih, mem_ids_insertEntry, List.map_cons, List.mem_cons, or_assoc,
        or_left_comm]
  exact (hfrom []).trans (by simp)

/-- **Documents in memory are kept in order** of their ids. -/
theorem ordered_ids (documents : List (DocumentId × Text)) (failing : List DocumentId) :
    DocumentId.Ordered ((ofDocuments documents failing).documents.map (·.1)) := by
  refine List.foldlRecOn (motive := fun kept : List (DocumentId × Text) =>
    DocumentId.Ordered (kept.map (·.1))) documents _ ?_ ?_
  · exact List.Pairwise.nil
  · exact fun _ hkept d _ => ordered_insertEntry d.2 hkept

end MemoryVault

end NotePress
