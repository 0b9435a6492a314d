import Mathlib.Order.Bounds.Basic
import NotePress.Proofs.Anew

/-!
# Where passes settle

Through every coherent cache one pass is the same function of the text, and a pass leaves the cache
coherent. So lowering, which makes each pass through the cache that the one before has left, repeats
one function: it stops in front of the first iterate that the function does not change, if one of
the passes gets there, and at the limit otherwise (`Lowering.settle_cases`, by induction on the
number of passes that may still be made).

`lower_eq_iterate` says so for whole runs, and that a run that settled has nothing left to do: once
more, it is over after one pass.
-/

namespace NotePress

namespace Lowering

variable {l : Lowering} {c c' : Cache} {source : DocumentId} {t : Text}

/-- A pass through another coherent cache gives the same. -/
theorem passText_of_coherent (h : c.Coherent l.resolver.collection)
    (h' : c'.Coherent l.resolver.collection) (t : Text) :
    l.passText c' source t = l.passText c source t :=
  passText_congr ((Cache.coherent_iff.mp h').trans (Cache.coherent_iff.mp h).symm)

/-- A pass leaves a coherent cache coherent. -/
theorem coherent_pass (h : c.Coherent l.resolver.collection) (t : Text) :
    (l.pass c t source).2.Coherent l.resolver.collection :=
  Cache.coherent_iff.mpr ((l.seenThrough_pass c t source).trans (Cache.coherent_iff.mp h))

/-- Whether a pass ends does not depend on the coherent cache. -/
theorem passEnds_iff (h : c.Coherent l.resolver.collection)
    (h' : c'.Coherent l.resolver.collection) :
    l.PassEnds c' source t ↔ l.PassEnds c source t := by
  have hends : ∀ {c}, c.Coherent l.resolver.collection →
      ((∃ next, l.passAnew? t source = some next) ↔ l.PassEnds c source t) := by
    intro c h
    simp only [passAnew?_eq_some_iff (Cache.coherent_iff.mp h), exists_and_left, exists_eq',
      and_true]
  rw [← hends h', hends h]

/-- The numbers of passes after which one more changes nothing. -/
def settled (l : Lowering) (c : Cache) (source : DocumentId) (t : Text) : Set ℕ :=
  {k | l.afterPasses c source t (k + 1) = l.afterPasses c source t k}

/-- One pass on, the text has settled one pass earlier. -/
theorem succ_mem_settled {k : ℕ} :
    k + 1 ∈ l.settled c source t ↔ k ∈ l.settled c source (l.passText c source t) := Iff.rfl

/-- **Passes stop at the first text that one more does not change**, or at the limit. -/
theorem settle_cases {left made : ℕ}
    (hc : l.resolver.collection.seenThrough c' = l.resolver.collection.seenThrough c) :
    (∃ k < left, IsLeast (l.settled c source t) k ∧
      (l.settle source left made t c').1 = ⟨l.afterPasses c source t k, made + k + 1, true⟩) ∨
    (∀ k < left, k ∉ l.settled c source t) ∧
      (l.settle source left made t c').1 =
        ⟨l.afterPasses c source t left, made + left, false⟩ := by
  induction left generalizing made t c' with
  | zero => exact .inr ⟨fun k hk => absurd hk (Nat.not_lt_zero k), rfl⟩
  | succ left ih =>
    have hnext : (l.pass c' t source).1 = l.passText c source t := passText_congr hc
    rw [settle]
    simp only [hnext]
    by_cases hsame : l.passText c source t = t
    · exact .inl ⟨0, Nat.succ_pos left, ⟨hsame, fun _ _ => Nat.zero_le _⟩, by rw [if_pos hsame]; rfl⟩
    · rw [if_neg hsame]
      -- No pass is needed only if the first one changes nothing.
      have hfirst : 0 ∉ l.settled c source t := hsame
      rcases @ih _ (l.passText c source t) (made + 1) ((seenThrough_pass l c' t source).trans hc)
        with ⟨k, hk, hleast, hrun⟩ | ⟨hnever, hrun⟩
      · refine .inl ⟨k + 1, Nat.succ_lt_succ hk, ⟨succ_mem_settled.mpr hleast.1, ?_⟩, ?_⟩
        · rintro (_ | j) hj
          · exact absurd hj hfirst
          · exact Nat.succ_le_succ (hleast.2 (succ_mem_settled.mp hj))
        · rw [hrun, Nat.add_right_comm made 1 k, Nat.add_assoc made k 1]
          rfl
      · refine .inr ⟨?_, ?_⟩
        · rintro (_ | j) hj
          · exact hfirst
          · exact mt succ_mem_settled.mp (hnever j (Nat.lt_of_succ_lt_succ hj))
        · rw [hrun, Nat.add_right_comm made 1 left, Nat.add_assoc made left 1]
          rfl

/-- A text that a pass does not change is what lowering gives, after that one pass. -/
theorem lower_of_fixed (h : l.passText c source t = t) :
    (l.lower c t source).1 = ⟨t, 1, true⟩ := by
  have hpass : (l.pass c t source).1 = t := h
  unfold lower
  rw [show passLimit = 4 + 1 from rfl, settle]
  simp only [hpass, if_true]

end Lowering

/-- **Lowering repeats one pass until it changes nothing.** Through a coherent cache a pass is one
function of the text, the same through all of them, and leaves the cache coherent. Lowering gives
the first iterate that the function does not change, after one pass more, if four passes lead there,
and the fifth iterate otherwise. What it settled at is not changed by a pass, and lowering it again,
through the cache left behind or another one, is over after one pass. If finitely many documents can
be read, all passes end. -/
theorem lower_eq_iterate (l : Lowering) {c : Cache} (h : c.Coherent l.resolver.collection)
    (t : Text) (source : DocumentId) :
    let g := l.resolver.collection
    let f := fun u => (l.pass c u source).1
    let run := l.lower c t source
    (∀ c' : Cache, c'.Coherent g → ∀ u,
      (l.pass c' u source).1 = f u ∧ (l.pass c' u source).2.Coherent g ∧
        (l.PassEnds c' source u ↔ l.PassEnds c source u)) ∧
    (∀ k ≤ 4, IsLeast {k | f^[k + 1] t = f^[k] t} k → run.1 = ⟨f^[k] t, k + 1, true⟩) ∧
    ((∀ k ≤ 4, f^[k + 1] t ≠ f^[k] t) → run.1 = ⟨f^[5] t, 5, false⟩) ∧
    run.2.Coherent g ∧
    (run.1.converged → f run.1.text = run.1.text ∧ ∀ c' : Cache, c'.Coherent g →
      (l.lower c' run.1.text source).1 = ⟨run.1.text, 1, true⟩) ∧
    (g.readable.Finite → ∀ n < run.1.passes, l.PassEnds c source (f^[n] t)) := by
  intro g f run
  have hcases := @Lowering.settle_cases l c c source t Lowering.passLimit 0 rfl
  refine ⟨fun c' h' u => ⟨Lowering.passText_of_coherent h h' u, Lowering.coherent_pass h' u,
    Lowering.passEnds_iff h h'⟩, fun k hk hleast => ?_, fun hnever => ?_,
    (l.lower_as_anew h t source).coherent, fun hconverged => ?_, fun hfin n _ =>
    Weaver.weave?_isSome l.finds_lowerer (Collection.finite_readable_seenThrough hfin c) _ _ _ rfl⟩
  · rcases hcases with ⟨k', -, hleast', hrun⟩ | ⟨hnever, -⟩
    · rw [hleast.unique hleast']
      exact hrun.trans (by rw [Nat.zero_add]; rfl)
    · exact absurd hleast.1 (hnever k (Nat.lt_succ_of_le hk))
  · rcases hcases with ⟨k, hk, hleast, -⟩ | ⟨-, hrun⟩
    · exact absurd hleast.1 (hnever k (Nat.le_of_lt_succ hk))
    · exact hrun
  · have hfixed : l.passText c source run.1.text = run.1.text := by
      rcases hcases with ⟨k, -, hleast, hrun⟩ | ⟨-, hrun⟩
      · rw [show run.1 = _ from hrun, ← Lowering.afterPasses_succ]
        exact hleast.1
      · rw [show run.1 = _ from hrun] at hconverged
        cases hconverged
    exact ⟨hfixed, fun c' h' =>
      Lowering.lower_of_fixed ((Lowering.passText_of_coherent h h' _).trans hfixed)⟩

/-- Two notes that embed each other, with one of them in the cache. -/
theorem lower_eq_iterate_mutual :
    let l := Lowering.of mutualVault.toCollection {} true
    let g := mutualVault.toCollection
    let t : Text := "![[a]]\n```py\nx\n```".toList
    let source := DocumentId.ofPath "main.md".toList
    let f := fun u => (l.pass halfWarm u source).1
    let run := l.lower halfWarm t source
    halfWarm.Coherent g ∧
    (∀ c' : Cache, c'.Coherent g → ∀ u,
      (l.pass c' u source).1 = f u ∧ (l.pass c' u source).2.Coherent g ∧
        (l.PassEnds c' source u ↔ l.PassEnds halfWarm source u)) ∧
    (∀ k ≤ 4, IsLeast {k | f^[k + 1] t = f^[k] t} k → run.1 = ⟨f^[k] t, k + 1, true⟩) ∧
    ((∀ k ≤ 4, f^[k + 1] t ≠ f^[k] t) → run.1 = ⟨f^[5] t, 5, false⟩) ∧
    run.2.Coherent g ∧
    (run.1.converged → f run.1.text = run.1.text ∧ ∀ c' : Cache, c'.Coherent g →
      (l.lower c' run.1.text source).1 = ⟨run.1.text, 1, true⟩) ∧
    (g.readable.Finite → ∀ n < run.1.passes, l.PassEnds halfWarm source (f^[n] t)) :=
  ⟨coherent_halfWarm, lower_eq_iterate (Lowering.of mutualVault.toCollection {} true)
    coherent_halfWarm _ _⟩

end NotePress
