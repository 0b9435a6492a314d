import Mathlib.Data.List.Forall2

/-!
# Lists

Facts about lists that several parts of the theory use.
-/

namespace NotePress

/-- A list whose elements all give something. -/
theorem mapM_eq_some_map {α β : Type} {f : α → Option β} {k : α → β} {xs : List α}
    (h : ∀ a ∈ xs, f a = some (k a)) : xs.mapM f = some (xs.map k) := by
  induction xs with
  | nil => rfl
  | cons a rest ih =>
    rw [List.mapM_cons, h a (List.mem_cons_self ..),
      ih fun b hb => h b (List.mem_cons_of_mem _ hb)]
    rfl

theorem isSome_of_mapM {α β : Type} {f : α → Option β} {xs : List α} {ys : List β}
    (h : xs.mapM f = some ys) : ∀ a ∈ xs, (f a).isSome := by
  induction xs generalizing ys with
  | nil => simp
  | cons a rest ih =>
    rw [List.mapM_cons] at h
    obtain ⟨b, hb, h⟩ := Option.bind_eq_some_iff.mp h
    obtain ⟨bs, hbs, -⟩ := Option.bind_eq_some_iff.mp h
    intro other hother
    rcases List.mem_cons.mp hother with rfl | hother
    · rw [hb]
      rfl
    · exact ih hbs other hother

theorem map_eq_of_mapM {α β γ : Type} {f : α → Option β} {g : β → γ} {k : α → γ} {xs : List α}
    {ys : List β} (hf : ∀ a b, f a = some b → g b = k a) (h : xs.mapM f = some ys) :
    ys.map g = xs.map k := by
  induction xs generalizing ys with
  | nil => cases h; rfl
  | cons a rest ih =>
    rw [List.mapM_cons] at h
    obtain ⟨b, hb, h⟩ := Option.bind_eq_some_iff.mp h
    obtain ⟨bs, hbs, h⟩ := Option.bind_eq_some_iff.mp h
    cases h
    rw [List.map_cons, List.map_cons, hf a b hb, ih hbs]

/-- A list of which every element gives itself. -/
theorem mapM_eq_self_iff {α : Type} {f : α → Option α} {xs : List α} :
    xs.mapM f = some xs ↔ ∀ a ∈ xs, f a = some a := by
  refine ⟨fun h => ?_, fun h => by simpa using mapM_eq_some_map h⟩
  induction xs with
  | nil => simp
  | cons a rest ih =>
    rw [List.mapM_cons] at h
    obtain ⟨b, hb, h⟩ := Option.bind_eq_some_iff.mp h
    obtain ⟨bs, hbs, h⟩ := Option.bind_eq_some_iff.mp h
    cases h
    exact List.forall_mem_cons.mpr ⟨hb, ih hbs⟩

/-- What a list whose elements all give something gives at each place. -/
theorem forall₂_of_mapM {ε α β : Type} {f : α → Except ε β} {xs : List α} {ys : List β}
    (h : xs.mapM f = .ok ys) : List.Forall₂ (fun a b => f a = .ok b) xs ys := by
  induction xs generalizing ys with
  | nil =>
    cases h
    exact .nil
  | cons a rest ih =>
    rw [List.mapM_cons] at h
    cases hb : f a with
    | error e =>
      rw [hb] at h
      cases h
    | ok b =>
      cases hbs : rest.mapM f with
      | error e =>
        rw [hb, hbs] at h
        cases h
      | ok bs =>
        rw [hb, hbs] at h
        cases h
        exact .cons hb (ih hbs)

/-- Nothing stands twice in a list without duplicates. -/
theorem eraseDups_of_nodup {α : Type} [BEq α] [LawfulBEq α] {xs : List α} (h : xs.Nodup) :
    xs.eraseDups = xs := by
  induction xs with
  | nil => rfl
  | cons a rest ih =>
    obtain ⟨ha, hrest⟩ := List.nodup_cons.mp h
    have hkept : rest.filter (fun b => !b == a) = rest :=
      List.filter_eq_self.mpr fun b hb => by simpa using fun heq : b = a => ha (heq ▸ hb)
    rw [List.eraseDups_cons, hkept, ih hrest]

section

variable {α : Type} {p : α → Bool} {u v : List α}

/-- What is taken from the front of a text ends in front of what stops it. -/
theorem takeWhile_append_of_head (hv : ∀ c ∈ v.head?, p c = false) :
    (u ++ v).takeWhile p = u.takeWhile p := by
  induction u with
  | nil =>
    cases v with
    | nil => rfl
    | cons c cs => simp [hv c rfl]
  | cons c cs ih =>
    cases hc : p c <;> simp [hc, ih]

theorem dropWhile_append_of_head (hv : ∀ c ∈ v.head?, p c = false) :
    (u ++ v).dropWhile p = u.dropWhile p ++ v := by
  induction u with
  | nil =>
    cases v with
    | nil => rfl
    | cons c cs => simp [hv c rfl]
  | cons c cs ih =>
    cases hc : p c <;> simp [hc, ih]

end

/-- A list has a first element with a property, or none. -/
theorem exists_first_or {α : Type} (P : α → Prop) (xs : List α) :
    (∀ x ∈ xs, ¬P x) ∨ ∃ before a after, xs = before ++ a :: after ∧ P a ∧ ∀ x ∈ before, ¬P x := by
  induction xs with
  | nil => exact .inl (by simp)
  | cons x rest ih =>
    by_cases hx : P x
    · exact .inr ⟨[], x, rest, rfl, hx, by simp⟩
    · rcases ih with hnone | ⟨before, a, after, rfl, ha, hbefore⟩
      · exact .inl (List.forall_mem_cons.mpr ⟨hx, hnone⟩)
      · exact .inr ⟨x :: before, a, after, rfl, ha, List.forall_mem_cons.mpr ⟨hx, hbefore⟩⟩

end NotePress
