import NotePress.Text.Basic

/-!
# Document ids

A document is named by its path from the root of its collection, written with slashes and without
a leading `/` or `./`. `DocumentId.ofPath` brings any path into that form; the form is part of the
type, so reading an id's path as an id gives the id back.
-/

namespace NotePress

/-- Drops leading `/` and `./`, as often as they stand there. -/
def dropRootMarks : Text → Text
  | '.' :: '/' :: rest => dropRootMarks rest
  | '/' :: rest => dropRootMarks rest
  | t => t

/-- Writes backslashes as slashes. -/
def forwardSlashes (t : Text) : Text := t.map fun c => if c = '\\' then '/' else c

/-- The normal form of a path. -/
def normalPath (path : Text) : Text := dropRootMarks (forwardSlashes path)

theorem dropRootMarks_idem (t : Text) : dropRootMarks (dropRootMarks t) = dropRootMarks t := by
  fun_induction dropRootMarks t with
  | case1 rest ih => exact ih
  | case2 rest ih => exact ih
  | case3 t h₁ h₂ => exact dropRootMarks.eq_3 t h₁ h₂

theorem mem_of_mem_dropRootMarks {c : Char} {t : Text} (h : c ∈ dropRootMarks t) : c ∈ t := by
  fun_induction dropRootMarks t with
  | case1 rest ih => simp [ih h]
  | case2 rest ih => simp [ih h]
  | case3 => exact h

theorem backslash_not_mem_forwardSlashes (t : Text) : '\\' ∉ forwardSlashes t := by
  intro h
  obtain ⟨c, -, hc⟩ := List.mem_map.1 h
  split at hc
  · exact absurd hc (by decide)
  · contradiction

theorem forwardSlashes_eq_self {t : Text} (h : '\\' ∉ t) : forwardSlashes t = t := by
  unfold forwardSlashes
  conv => rhs; rw [← List.map_id t]
  refine List.map_congr_left fun c hc => ?_
  have : c ≠ '\\' := fun e => h (e ▸ hc)
  simp [this]

/-- Normalising a second time changes nothing. -/
theorem normalPath_idem (t : Text) : normalPath (normalPath t) = normalPath t := by
  have h : '\\' ∉ normalPath t := fun h =>
    backslash_not_mem_forwardSlashes t (mem_of_mem_dropRootMarks h)
  show dropRootMarks (forwardSlashes (normalPath t)) = _
  rw [forwardSlashes_eq_self h]
  exact dropRootMarks_idem _

/-- The id of a document: a path in normal form. -/
structure DocumentId where
  path : Text
  normal : normalPath path = path
  deriving DecidableEq

namespace DocumentId

/-- The id that a path names. -/
def ofPath (path : Text) : DocumentId := ⟨normalPath path, normalPath_idem path⟩

@[ext] theorem ext_path {a b : DocumentId} (h : a.path = b.path) : a = b := by
  cases a; cases b; simp_all

/-- Reading an id's path as an id gives the id back. -/
@[simp] theorem ofPath_path (id : DocumentId) : ofPath id.path = id := ext_path id.normal

/-- The last segment of the path. -/
def lastName (id : DocumentId) : Text := id.path.afterLast '/'

/-- The name without its extension; a leading dot starts no extension. -/
def stem (id : DocumentId) : Text :=
  match id.lastName.cutAtLast? '.' with
  | some (c :: cs, _) => c :: cs
  | _ => id.lastName

/-- The extension, without the dot and not empty. -/
def extension? (id : DocumentId) : Option Text :=
  match id.lastName.cutAtLast? '.' with
  | some (_ :: _, c :: cs) => some (c :: cs)
  | _ => none

/-- The directory part; empty for a document at the root. -/
def directory (id : DocumentId) : Text := id.path.beforeLast '/'

/-- Extensions that are read as notes. -/
def noteExtensions : List Text := ["md", "markdown", "txt"].map String.toList

/-- Whether the document is read as a note when it is embedded; a name without extension is. -/
def isNote (id : DocumentId) : Bool :=
  match id.extension? with
  | none => true
  | some ext => noteExtensions.any (ext.sameAscii ·)

/-- The number of slashes in the path. -/
def depth (id : DocumentId) : Nat := id.path.count '/'

/-- Ids are ordered as their paths. -/
def lt (a b : DocumentId) : Bool := a.path.lt b.path

end DocumentId

end NotePress
