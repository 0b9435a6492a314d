import Mathlib.Data.List.TakeWhile
import NotePress.Text.Basic
import NotePress.Text.Case

/-!
# Lower case in parts

Only a capital sigma is lowered by what stands around it, and nobody looks past a slash: so the
parts of a path are lowered each by itself (`Text.lower_slash`). An ending is another matter.
Letters behind a sigma that ended a word make it one inside a word, so a text with such an ending is
lowered to the lower case of the text and the ending only if the text does not end in such a sigma
(`lowerFrom_append_iff`).
-/

namespace NotePress

/-- **A text ends in a sigma that ends a word**: there are only case-ignorable characters behind it,
and in front of it, after such ones, a cased character; `before` is what stands in front of the
text, in reverse. -/
def EndsInSigma (before t : Text) : Prop :=
  ∃ front back, t = front ++ 'Σ' :: back ∧ casedNext (front.reverse ++ before) = true ∧
    ∀ c ∈ back, inRanges caseIgnorableRanges c.toNat = true

variable {before t u v ending : Text} {c : Char}

/-! ### Characters -/

/-- Letters with a partner are the capitals `A` to `Z` and letters behind ASCII; no partner is a
mark. -/
theorem lowerRuns_bounds : ∀ r ∈ lowerRuns,
    (0x41 ≤ r.1 ∧ r.2.1 ≤ 0x5A ∨ 0x80 ≤ r.1) ∧ 0x61 ≤ r.2.2.2 := by
  decide +kernel

/-- What is no capital stays. -/
theorem lowerChar_eq_self (h : c.toNat < 0x41 ∨ 0x5A < c.toNat ∧ c.toNat < 0x80) :
    lowerChar c = c := by
  unfold lowerChar
  simp only
  split
  · rename_i r hfind
    have hbounds := (lowerRuns_bounds r (List.mem_of_find?_eq_some hfind)).1
    have hin := List.find?_some hfind
    simp only [Bool.and_eq_true, decide_eq_true_eq] at hin
    omega
  · rfl

/-- No letter is lowered to a slash. -/
theorem lowerChar_eq_slash_iff : lowerChar c = '/' ↔ c = '/' := by
  refine ⟨fun heq => ?_, ?_⟩
  · unfold lowerChar at heq
    simp only at heq
    split at heq
    · rename_i r hfind
      have hpartner := (lowerRuns_bounds r (List.mem_of_find?_eq_some hfind)).2
      unfold Char.ofNat at heq
      by_cases hvalid : (r.2.2.2 + (c.toNat - r.1)).isValidChar
      · rw [dif_pos hvalid] at heq
        have hnat : r.2.2.2 + (c.toNat - r.1) = '/'.toNat := congrArg Char.toNat heq
        have : '/'.toNat < 0x61 := by decide
        omega
      · rw [dif_neg hvalid] at heq
        cases heq
    · exact heq
  · rintro rfl
    exact lowerChar_eq_self (.inl (by decide))

/-! ### What is seen -/

theorem casedNext_append_of_ignorable
    (h : ∀ c ∈ u, inRanges caseIgnorableRanges c.toNat = true) :
    casedNext (u ++ v) = casedNext v := by
  unfold casedNext
  rw [List.dropWhile_append_of_pos h]

theorem casedNext_of_ignorable (h : ∀ c ∈ u, inRanges caseIgnorableRanges c.toNat = true) :
    casedNext u = false := by
  rw [← List.append_nil u, casedNext_append_of_ignorable h]
  rfl

theorem casedNext_append_of_not
    (h : ¬∀ c ∈ u, inRanges caseIgnorableRanges c.toNat = true) :
    casedNext (u ++ v) = casedNext u := by
  unfold casedNext
  cases hdrop : u.dropWhile fun c => inRanges caseIgnorableRanges c.toNat with
  | nil => exact absurd (List.dropWhile_eq_nil_iff.mp hdrop) h
  | cons c rest =>
    rw [List.dropWhile_append, hdrop]
    rfl

/-- Nothing is seen behind a slash. -/
theorem casedNext_slash (u v : Text) : casedNext (u ++ '/' :: v) = casedNext u := by
  by_cases h : ∀ c ∈ u, inRanges caseIgnorableRanges c.toNat = true
  · rw [casedNext_append_of_ignorable h, casedNext_of_ignorable h, casedNext,
      List.dropWhile_cons_of_neg (by decide +kernel)]
    exact (by decide +kernel : inRanges casedRanges '/'.toNat = false)
  · exact casedNext_append_of_not h

/-! ### Parts of a path -/

theorem Text.lowerFrom_cons (before : Text) (c : Char) (cs : Text) :
    lowerFrom before (c :: cs) =
      if c = 'Σ' then
        (if casedNext before && !casedNext cs then 'ς' else 'σ') :: lowerFrom (c :: before) cs
      else if c = 'İ' then 'i' :: '\u0307' :: lowerFrom (c :: before) cs
      else lowerChar c :: lowerFrom (c :: before) cs :=
  rfl

/-- An ASCII text without capitals is left as it is. -/
theorem lowerFrom_eq_self (h : ∀ c ∈ t, c.toNat < 0x41 ∨ 0x5A < c.toNat ∧ c.toNat < 0x80)
    (before : Text) : Text.lowerFrom before t = t := by
  induction t generalizing before with
  | nil => rfl
  | cons c cs ih =>
    obtain ⟨hc, hcs⟩ := List.forall_mem_cons.mp h
    have hsigma : c ≠ 'Σ' := by
      rintro rfl
      revert hc
      decide
    have hdot : c ≠ 'İ' := by
      rintro rfl
      revert hc
      decide
    rw [Text.lowerFrom_cons, if_neg hsigma, if_neg hdot, lowerChar_eq_self hc, ih hcs]

theorem lowerFrom_behind_slash (before outer t : Text) :
    Text.lowerFrom (before ++ '/' :: outer) t = Text.lowerFrom before t := by
  induction t generalizing before with
  | nil => rfl
  | cons c cs ih =>
    rw [Text.lowerFrom_cons, Text.lowerFrom_cons, casedNext_slash, ← List.cons_append, ih]

/-- **What stands in front of a slash and behind it** is lowered each by itself. -/
theorem lowerFrom_slash (before u v : Text) :
    Text.lowerFrom before (u ++ '/' :: v) = Text.lowerFrom before u ++ '/' :: v.lower := by
  induction u generalizing before with
  | nil =>
    have hbehind := lowerFrom_behind_slash [] before v
    have hslash : lowerChar '/' = '/' := lowerChar_eq_slash_iff.mpr rfl
    rw [List.nil_append] at hbehind
    show Text.lowerFrom before ('/' :: v) = '/' :: v.lower
    rw [Text.lowerFrom_cons, hbehind, if_neg (by decide), if_neg (by decide), hslash]
    rfl
  | cons c cs ih =>
    rw [List.cons_append, Text.lowerFrom_cons, Text.lowerFrom_cons, casedNext_slash, ih]
    split
    · rfl
    · split <;> rfl

theorem Text.lower_slash (u v : Text) : Text.lower (u ++ '/' :: v) = u.lower ++ '/' :: v.lower :=
  lowerFrom_slash [] u v

/-- Lowering keeps the slashes. -/
theorem count_slash_lowerFrom (before t : Text) :
    (Text.lowerFrom before t).count '/' = t.count '/' := by
  induction t generalizing before with
  | nil => rfl
  | cons c cs ih =>
    rw [Text.lowerFrom_cons]
    split
    · rename_i hsigma
      subst hsigma
      split <;> simp [ih]
    · split
      · rename_i hdot
        subst hdot
        simp [ih]
      · simp [List.count_cons, ih, lowerChar_eq_slash_iff]

/-- The length of the lower case does not depend on what stands around. -/
theorem length_lowerFrom (before t : Text) :
    (Text.lowerFrom before t).length = t.length + t.count 'İ' := by
  induction t generalizing before with
  | nil => rfl
  | cons c cs ih =>
    rw [Text.lowerFrom_cons]
    split
    · rename_i hsigma
      subst hsigma
      simp [ih]
      omega
    · split
      · rename_i hdot
        subst hdot
        simp [ih]
        omega
      · rename_i hdot
        rw [List.length_cons, List.length_cons, List.count_cons_of_ne hdot, ih]
        omega

/-! ### Endings -/

theorem not_endsInSigma_nil : ¬EndsInSigma before [] := by
  rintro ⟨front, back, h, -⟩
  simp at h

/-- A text ends in a sigma that ends a word if its first character is one, or the rest does. -/
theorem endsInSigma_cons_iff : EndsInSigma before (c :: t) ↔
    (c = 'Σ' ∧ casedNext before = true ∧ ∀ c ∈ t, inRanges caseIgnorableRanges c.toNat = true) ∨
      EndsInSigma (c :: before) t := by
  constructor
  · rintro ⟨front, back, h, hcased, hback⟩
    cases front with
    | nil =>
      cases h
      exact .inl ⟨rfl, hcased, hback⟩
    | cons d front =>
      cases h
      exact .inr ⟨front, back, rfl, by simpa using hcased, hback⟩
  · rintro (⟨rfl, hcased, ht⟩ | ⟨front, back, rfl, hcased, hback⟩)
    · exact ⟨[], t, rfl, hcased, ht⟩
    · exact ⟨c :: front, back, rfl, by simpa using hcased, hback⟩

/-- **The lower case of a text with an ending** that begins with a cased character, perhaps behind
case-ignorable ones, and is lowered to itself. -/
theorem lowerFrom_append_iff (hcased : casedNext ending = true)
    (hending : ∀ before, Text.lowerFrom before ending = ending) :
    Text.lowerFrom before (t ++ ending) = Text.lowerFrom before t ++ ending ↔
      ¬EndsInSigma before t := by
  induction t generalizing before with
  | nil => exact iff_of_true (hending before) not_endsInSigma_nil
  | cons c cs ih =>
    rw [endsInSigma_cons_iff, not_or, ← ih, List.cons_append, Text.lowerFrom_cons,
      Text.lowerFrom_cons]
    by_cases hsigma : c = 'Σ'
    · rw [if_pos hsigma, if_pos hsigma, List.cons_append, List.cons.injEq]
      refine and_congr_left fun _ => ?_
      by_cases hcs : ∀ c ∈ cs, inRanges caseIgnorableRanges c.toNat = true
      · rw [casedNext_append_of_ignorable hcs, casedNext_of_ignorable hcs, hcased]
        cases casedNext before
        · simp
        · exact iff_of_false (by decide) fun hnot => hnot ⟨hsigma, rfl, hcs⟩
      · rw [casedNext_append_of_not hcs]
        exact iff_of_true rfl fun hends => hcs hends.2.2
    · rw [if_neg hsigma, if_neg hsigma]
      split <;> simp [hsigma]

end NotePress
