import Mathlib.Data.List.Basic
import NotePress.Lowering.Pass

/-!
# Sites in order and apart

`Lowering.arrange` sorts sites by where they start, the longer one first, and drops those that start
in a site that is kept. So the sites that are kept are apart, a site is dropped only for a kept one
that covers its start, and a site that no other one gets in the way of is kept.
-/

namespace NotePress

/-- A site starts in front of another one, or together with it and ends no earlier. -/
def LoweringSite.Ahead (a b : LoweringSite) : Prop :=
  a.span.start < b.span.start ∨ a.span.start = b.span.start ∧ b.span.stop ≤ a.span.stop

theorem LoweringSite.Ahead.trans {a b c : LoweringSite} (h : a.Ahead b) (h' : b.Ahead c) :
    a.Ahead c := by
  unfold LoweringSite.Ahead at *
  omega

namespace Lowering

theorem goesBefore_iff {a b : LoweringSite} : goesBefore a b = true ↔
    a.span.start < b.span.start ∨ a.span.start = b.span.start ∧ b.span.stop < a.span.stop := by
  simp [goesBefore]

/-! ### Sorting -/

theorem insertSite_perm (site : LoweringSite) (sites : List LoweringSite) :
    (insertSite site sites).Perm (site :: sites) := by
  induction sites with
  | nil => exact .refl _
  | cons other rest ih =>
    unfold insertSite
    split
    · exact .refl _
    · exact (ih.cons other).trans (.swap site other rest)

theorem insertSite_sorted (site : LoweringSite) {sites : List LoweringSite}
    (h : sites.Pairwise LoweringSite.Ahead) :
    (insertSite site sites).Pairwise LoweringSite.Ahead := by
  induction sites with
  | nil => exact List.pairwise_singleton _ _
  | cons other rest ih =>
    obtain ⟨hother, hrest⟩ := List.pairwise_cons.mp h
    unfold insertSite
    split
    · rename_i hbefore
      have hahead : site.Ahead other := by
        rcases goesBefore_iff.mp hbefore with hlt | ⟨heq, hlt⟩
        · exact .inl hlt
        · exact .inr ⟨heq, Nat.le_of_lt hlt⟩
      refine .cons (fun b hb => ?_) h
      rcases List.mem_cons.mp hb with rfl | hb
      · exact hahead
      · exact hahead.trans (hother b hb)
    · rename_i hbefore
      have hahead : other.Ahead site := by
        rw [goesBefore_iff] at hbefore
        unfold LoweringSite.Ahead
        omega
      refine .cons (fun b hb => ?_) (ih hrest)
      rcases List.mem_cons.mp ((insertSite_perm site rest).subset hb) with rfl | hb
      · exact hahead
      · exact hother b hb

/-- Sites brought in order are the same sites. -/
theorem foldl_insertSite_perm (sites kept : List LoweringSite) :
    (sites.foldl (fun kept site => insertSite site kept) kept).Perm (sites ++ kept) := by
  induction sites generalizing kept with
  | nil => exact .refl _
  | cons site rest ih =>
    exact (ih _).trans (((insertSite_perm site kept).append_left rest).trans
      List.perm_middle)

theorem foldl_insertSite_sorted (sites : List LoweringSite) {kept : List LoweringSite}
    (h : kept.Pairwise LoweringSite.Ahead) :
    (sites.foldl (fun kept site => insertSite site kept) kept).Pairwise LoweringSite.Ahead := by
  induction sites generalizing kept with
  | nil => exact h
  | cons site rest ih => exact ih (insertSite_sorted site h)

/-! ### Keeping apart -/

theorem keepApart_sublist (free : Nat) (sites : List LoweringSite) :
    (keepApart free sites).Sublist sites := by
  induction sites generalizing free with
  | nil => exact .slnil
  | cons site rest ih =>
    unfold keepApart
    split
    · exact (ih _).cons_cons site
    · exact (ih _).cons site

theorem keepApart_pairwise {sites : List LoweringSite}
    (hall : ∀ site ∈ sites, site.span.start < site.span.stop) (free : Nat) :
    (keepApart free sites).Pairwise (fun a b => a.span.stop ≤ b.span.start) ∧
      ∀ site ∈ keepApart free sites, free ≤ site.span.start := by
  induction sites generalizing free with
  | nil => exact ⟨.nil, by simp [keepApart]⟩
  | cons site rest ih =>
    have hrest := fun other h => hall other (List.mem_cons_of_mem site h)
    unfold keepApart
    split
    · rename_i hfree
      obtain ⟨hapart, hstart⟩ := ih hrest site.span.stop
      refine ⟨.cons hstart hapart, fun other hother => ?_⟩
      rcases List.mem_cons.mp hother with rfl | hother
      · exact hfree
      · have := hstart other hother
        have := hall site (List.mem_cons_self ..)
        omega
    · exact ih hrest free

/-- A site that ends nothing in front of it gets in its way is kept. -/
theorem mem_keepApart {before after : List LoweringSite} {site : LoweringSite} {free : Nat}
    (hfree : free ≤ site.span.start) (h : ∀ other ∈ before, other.span.stop ≤ site.span.start) :
    site ∈ keepApart free (before ++ site :: after) := by
  induction before generalizing free with
  | nil =>
    rw [List.nil_append, keepApart, if_pos hfree]
    exact List.mem_cons_self ..
  | cons other rest ih =>
    have hrest := fun other' h' => h other' (List.mem_cons_of_mem other h')
    rw [List.cons_append, keepApart]
    split
    · exact List.mem_cons_of_mem _ (ih (h other (List.mem_cons_self ..)) hrest)
    · exact ih hfree hrest

/-- A site that is dropped starts in front of `free` or in a site that is kept. -/
theorem mem_keepApart_or {sites : List LoweringSite} (hsorted : sites.Pairwise LoweringSite.Ahead)
    {site : LoweringSite} (hsite : site ∈ sites) (free : Nat) :
    site ∈ keepApart free sites ∨ site.span.start < free ∨
      ∃ kept ∈ keepApart free sites,
        kept.span.start ≤ site.span.start ∧ site.span.start < kept.span.stop := by
  induction sites generalizing free with
  | nil => cases hsite
  | cons other rest ih =>
    obtain ⟨hother, hrest⟩ := List.pairwise_cons.mp hsorted
    unfold keepApart
    split
    · rcases List.mem_cons.mp hsite with rfl | hsite
      · exact .inl (List.mem_cons_self ..)
      · rcases ih hrest hsite other.span.stop with hkept | hlt | ⟨kept, hkept, hcovers⟩
        · exact .inl (List.mem_cons_of_mem _ hkept)
        · refine .inr (.inr ⟨other, List.mem_cons_self .., ?_, hlt⟩)
          have := hother site hsite
          unfold LoweringSite.Ahead at this
          omega
        · exact .inr (.inr ⟨kept, List.mem_cons_of_mem _ hkept, hcovers⟩)
    · rename_i hfree
      rcases List.mem_cons.mp hsite with rfl | hsite
      · exact .inr (.inl (Nat.lt_of_not_le hfree))
      · exact ih hrest hsite free

/-! ### Arranging -/

variable {sites : List LoweringSite} {site : LoweringSite}

/-- Arranged sites are among the given ones. -/
theorem mem_of_mem_arrange (h : site ∈ arrange sites) : site ∈ sites := by
  have hmem := (foldl_insertSite_perm sites []).subset ((keepApart_sublist 0 _).subset h)
  rwa [List.append_nil] at hmem

/-- **Arranged sites are apart.** -/
theorem arrange_pairwise (hall : ∀ site ∈ sites, site.span.start < site.span.stop) :
    (arrange sites).Pairwise fun a b => a.span.stop ≤ b.span.start := by
  refine (keepApart_pairwise (fun site hsite => hall site ?_) 0).1
  have hmem := (foldl_insertSite_perm sites []).subset hsite
  rwa [List.append_nil] at hmem

/-- **A site with no other one in its way is kept**: every other one starts behind its start, or
ends in front of it. -/
theorem mem_arrange (hsite : site ∈ sites) (h : ∀ other ∈ sites, other = site ∨
    site.span.start < other.span.start ∨ other.span.stop ≤ site.span.start) :
    site ∈ arrange sites := by
  have hperm := foldl_insertSite_perm sites []
  rw [List.append_nil] at hperm
  have hsorted := foldl_insertSite_sorted sites .nil
  unfold arrange
  generalize sites.foldl (fun kept site => insertSite site kept) [] = sorted at hperm hsorted
  obtain ⟨before, after, rfl, hfirst⟩ := List.eq_append_cons_of_mem (hperm.symm.subset hsite)
  refine mem_keepApart (Nat.zero_le _) fun other hother => ?_
  have hahead := (List.pairwise_append.mp hsorted).2.2 other hother site (List.mem_cons_self ..)
  rcases h other (hperm.subset (List.mem_append_left _ hother)) with rfl | hbehind | hstop
  · exact absurd hother hfirst
  · unfold LoweringSite.Ahead at hahead
    omega
  · exact hstop

/-- **A site is dropped only for one that is kept** and covers its start. -/
theorem mem_arrange_or (hsite : site ∈ sites) : site ∈ arrange sites ∨
    ∃ kept ∈ arrange sites,
      kept.span.start ≤ site.span.start ∧ site.span.start < kept.span.stop := by
  have hperm := foldl_insertSite_perm sites []
  rw [List.append_nil] at hperm
  rcases mem_keepApart_or (foldl_insertSite_sorted sites .nil) (hperm.symm.subset hsite) 0 with
    hkept | hlt | hcovered
  · exact .inl hkept
  · exact absurd hlt (Nat.not_lt_zero _)
  · exact .inr hcovered

end Lowering

end NotePress
