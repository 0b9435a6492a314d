import Mathlib.Data.List.DropRight
import NotePress.Text.Blank

/-!
# Trimmed texts

What is cut off at the end of a text is the longest tail of its class (`Text.dropTail_eq_iff`), and
a text is its trimmed form with blanks around it (`Text.exists_trim`). So blanks that are added on
either side do not change the trimmed form (`Text.trim_append_left`, `Text.trim_append_right`), and
a text that begins and ends with something else is trimmed (`Text.trim_eq_self`). Such texts, if
they say something, stay so when one is put behind another (`Text.IsTrimmed.append`).
-/

namespace NotePress

/-! ### Ends of a text -/

/-- What is cut off at the end is the longest tail of its class. -/
theorem rdropWhile_eq_iff {α : Type} {p : α → Bool} {xs ys : List α} :
    xs.rdropWhile p = ys ↔ ∃ back, xs = ys ++ back ∧ (∀ x ∈ back, p x = true) ∧
      ∀ x ∈ ys.getLast?, p x = false := by
  constructor
  · rintro rfl
    refine ⟨xs.rtakeWhile p, List.rdropWhile_append_rtakeWhile.symm,
      fun x => List.mem_rtakeWhile_imp, fun x hx => ?_⟩
    obtain ⟨hne, rfl⟩ := List.mem_getLast?_eq_getLast hx
    exact Bool.eq_false_iff.mpr (List.rdropWhile_last_not p xs hne)
  · rintro ⟨back, rfl, hback, hlast⟩
    induction back using List.reverseRecOn with
    | nil =>
      rw [List.append_nil]
      refine List.rdropWhile_eq_self_iff.mpr fun hne => ?_
      rw [hlast _ (List.getLast_mem_getLast? hne)]
      exact Bool.false_ne_true
    | append_singleton back x ih =>
      rw [← List.append_assoc, List.rdropWhile_concat_pos _ _ _ (hback x (by simp))]
      exact ih fun y hy => hback y (List.mem_append_left _ hy)

namespace Text

variable {p : Char → Bool} {a b t u front back : Text} {c : Char}

theorem dropTail_eq_iff :
    dropTail p t = u ↔ ∃ back, t = u ++ back ∧ (∀ c ∈ back, p c = true) ∧
      ∀ c ∈ u.getLast?, p c = false :=
  rdropWhile_eq_iff

theorem dropTail_eq_self (h : ∀ c ∈ t.getLast?, p c = false) : dropTail p t = t :=
  dropTail_eq_iff.mpr ⟨[], (List.append_nil t).symm, by simp, h⟩

theorem dropTail_append_of_all (h : ∀ c ∈ back, p c = true) :
    dropTail p (t ++ back) = dropTail p t := by
  obtain ⟨tail, ht, htail, hlast⟩ := dropTail_eq_iff.mp (rfl : dropTail p t = dropTail p t)
  refine dropTail_eq_iff.mpr ⟨tail ++ back, ?_, ?_, hlast⟩
  · rw [← List.append_assoc, ← ht]
  · intro c hc
    exact (List.mem_append.mp hc).elim (htail c) (h c)

theorem length_dropTail_le (p : Char → Bool) (t : Text) : (dropTail p t).length ≤ t.length :=
  (List.rdropWhile_prefix p (l := t)).length_le

theorem getLast?_dropTail : ∀ c ∈ (dropTail p t).getLast?, p c = false := by
  obtain ⟨-, -, -, hlast⟩ := dropTail_eq_iff.mp (rfl : dropTail p t = dropTail p t)
  exact hlast

theorem dropTail_subset (p : Char → Bool) (t : Text) : dropTail p t ⊆ t :=
  (List.rdropWhile_prefix p (l := t)).subset

/-! ### Trimming -/

theorem trimStart_eq_self (h : ∀ c ∈ t.head?, isBlank c = false) : t.trimStart = t := by
  cases t with
  | nil => rfl
  | cons c rest => exact List.dropWhile_cons_of_neg (by simp [h c rfl])

theorem trim_eq_self (hhead : ∀ c ∈ t.head?, isBlank c = false)
    (hlast : ∀ c ∈ t.getLast?, isBlank c = false) : t.trim = t := by
  rw [trim, trimStart_eq_self hhead, trimEnd, dropTail_eq_self hlast]

theorem isBlank_of_getLast?_trim : ∀ c ∈ t.trim.getLast?, isBlank c = false :=
  getLast?_dropTail

/-- A text is its trimmed form with blanks around it. -/
theorem exists_trim (t : Text) : ∃ front back, t = front ++ (t.trim ++ back) ∧
    (∀ c ∈ front, isBlank c = true) ∧ ∀ c ∈ back, isBlank c = true := by
  obtain ⟨back, hstart, hback, -⟩ :=
    dropTail_eq_iff.mp (rfl : dropTail isBlank t.trimStart = t.trim)
  have hstart : t.dropWhile isBlank = t.trim ++ back := hstart
  refine ⟨t.takeWhile isBlank, back, ?_, fun c => List.mem_takeWhile_imp, hback⟩
  rw [← hstart]
  exact List.takeWhile_append_dropWhile.symm

theorem trim_subset (t : Text) : t.trim ⊆ t := by
  intro c hc
  obtain ⟨front, back, ht, -, -⟩ := exists_trim t
  rw [ht]
  simp [hc]

theorem isBlank_of_head?_trim : ∀ c ∈ t.trim.head?, isBlank c = false := by
  intro c hc
  have hnot := List.head?_dropWhile_not isBlank t
  obtain ⟨back, hstart, -, -⟩ := dropTail_eq_iff.mp (rfl : dropTail isBlank t.trimStart = t.trim)
  have hstart : t.dropWhile isBlank = t.trim ++ back := hstart
  obtain ⟨rest, hrest⟩ := List.head?_eq_some_iff.mp hc
  have hhead : (t.dropWhile isBlank).head? = some c := by
    rw [hstart, hrest]
    rfl
  rw [hhead] at hnot
  simpa using hnot

theorem trim_trim (t : Text) : t.trim.trim = t.trim :=
  trim_eq_self isBlank_of_head?_trim isBlank_of_getLast?_trim

/-- Blanks in front of a text are trimmed. -/
theorem trim_append_left (h : ∀ c ∈ front, isBlank c = true) (t : Text) :
    trim (front ++ t) = t.trim := by
  rw [trim, trimStart, List.dropWhile_append_of_pos h]
  rfl

/-- Blanks at the end of a text are trimmed. -/
theorem trim_append_right (h : ∀ c ∈ back, isBlank c = true) (t : Text) :
    trim (t ++ back) = t.trim := by
  unfold trim trimStart
  rw [List.dropWhile_append]
  split
  · rename_i hnil
    rw [List.isEmpty_iff.mp hnil, List.dropWhile_eq_nil_iff.mpr h]
  · exact dropTail_append_of_all h

/-- A blank text has nothing left when it is trimmed, and no other text. -/
theorem trim_eq_nil_iff : t.trim = [] ↔ t.allBlank = true := by
  rw [allBlank, List.all_eq_true]
  constructor
  · intro h
    obtain ⟨front, back, ht, hfront, hback⟩ := exists_trim t
    rw [h] at ht
    intro c hc
    rw [ht] at hc
    rcases List.mem_append.mp hc with hc | hc
    · exact hfront c hc
    · exact hback c hc
  · intro h
    rw [← List.append_nil t, trim_append_left h]
    rfl

/-! ### Texts that say something -/

/-- A text that says something and has no blanks around it. -/
structure IsTrimmed (t : Text) : Prop where
  ne_nil : t ≠ []
  trim : t.trim = t

theorem unlessBlank?_eq (t : Text) :
    t.unlessBlank? = if t.trim = [] then none else some t.trim := by
  unfold unlessBlank?
  cases t.trim <;> rfl

theorem isTrimmed_of_unlessBlank? (h : t.unlessBlank? = some a) : a.IsTrimmed ∧ a ⊆ t := by
  rw [unlessBlank?_eq] at h
  split at h <;> cases h
  rename_i hne
  exact ⟨⟨hne, trim_trim t⟩, trim_subset t⟩

theorem IsTrimmed.unlessBlank? (h : t.IsTrimmed) : t.unlessBlank? = some t :=
  unlessBlank?_of_trim h.trim h.ne_nil

theorem IsTrimmed.head (h : t.IsTrimmed) : ∀ c ∈ t.head?, isBlank c = false :=
  h.trim ▸ isBlank_of_head?_trim

theorem IsTrimmed.last (h : t.IsTrimmed) : ∀ c ∈ t.getLast?, isBlank c = false :=
  h.trim ▸ isBlank_of_getLast?_trim

theorem IsTrimmed.of_ends (hne : t ≠ []) (hhead : ∀ c ∈ t.head?, isBlank c = false)
    (hlast : ∀ c ∈ t.getLast?, isBlank c = false) : t.IsTrimmed :=
  ⟨hne, trim_eq_self hhead hlast⟩

/-- A character that is not blank, and a trimmed text behind it. -/
theorem IsTrimmed.cons {c : Char} (hc : isBlank c = false) (h : t.IsTrimmed) :
    IsTrimmed (c :: t) := by
  refine .of_ends (List.cons_ne_nil _ _) (by rintro _ ⟨⟩; exact hc) ?_
  rw [List.getLast?_cons_of_ne_nil h.ne_nil]
  exact h.last

theorem IsTrimmed.append (ha : a.IsTrimmed) (hb : b.IsTrimmed) : IsTrimmed (a ++ b) := by
  refine .of_ends (by simp [ha.ne_nil]) ?_ ?_
  · rw [List.head?_append_of_ne_nil _ ha.ne_nil]
    exact ha.head
  · rw [List.getLast?_append_of_ne_nil _ hb.ne_nil]
    exact hb.last

end Text

end NotePress
