import NotePress.Document.Id

/-!
# Sorting ids

Listings are in the order of paths. Equal ids stay side by side.
-/

namespace NotePress.DocumentId

/-- Puts an id in front of the first one that is greater. -/
def insertSorted (id : DocumentId) : List DocumentId → List DocumentId
  | [] => [id]
  | other :: rest => if id.lt other then id :: other :: rest else other :: insertSorted id rest

/-- The ids in the order of their paths. -/
def sort (ids : List DocumentId) : List DocumentId :=
  ids.foldl (fun kept id => insertSorted id kept) []

theorem mem_insertSorted {a id : DocumentId} {ids : List DocumentId} :
    a ∈ insertSorted id ids ↔ a = id ∨ a ∈ ids := by
  induction ids with
  | nil => simp [insertSorted]
  | cons other rest ih =>
    unfold insertSorted
    split
    · simp
    · simp only [List.mem_cons, ih]
      constructor
      · rintro (h | h | h) <;> simp [h]
      · rintro (h | h | h) <;> simp [h]

/-- Sorting keeps the ids. -/
theorem mem_sort {a : DocumentId} {ids : List DocumentId} : a ∈ sort ids ↔ a ∈ ids := by
  have h : ∀ (kept : List DocumentId),
      a ∈ ids.foldl (fun kept id => insertSorted id kept) kept ↔ a ∈ ids ∨ a ∈ kept := by
    induction ids with
    | nil => simp
    | cons b rest ih =>
      intro kept
      simp only [List.foldl_cons, ih, mem_insertSorted, List.mem_cons]
      constructor
      · rintro (h | h | h) <;> simp [h]
      · rintro ((h | h) | h) <;> simp [h]
  simpa [sort] using h []

end NotePress.DocumentId
