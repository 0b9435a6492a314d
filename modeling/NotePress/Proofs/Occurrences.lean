import NotePress.Proofs.Splicing
import NotePress.Text.Basic

/-!
# Occurrences of a literal

An occurrence of a literal does not reach over a character that the literal does not have, so what
stands on either side of such a character can be searched by itself (`Text.infix_append_cons_iff`).
A marker begins with a character that it has only once (`Text.IsMarker`), so no two occurrences of
it overlap. A text that ends with a marker has it there only, and is read up to there, just when the
marker is not in what stands in front (`Text.IsMarker.standsOnce_iff`,
`Text.IsMarker.upTo?_append`). What is replaced from left to right is told by one step at a time: an
occurrence at the front goes as a whole, and else one character stays (`Text.replace_append`,
`Text.replace_cons`).
-/

namespace NotePress.Text

variable {m a b t front rest : Text} {sep lead c : Char}

/-! ### Cuts -/

theorem cutAt?_eq_none (h : sep ∉ t) : t.cutAt? sep = none := by
  induction t with
  | nil => rfl
  | cons c cs ih =>
    have hc := List.ne_of_not_mem_cons h
    rw [cutAt?, if_neg hc.symm, ih (List.not_mem_of_not_mem_cons h)]
    rfl

theorem cutAt?_append (h : sep ∉ a) : cutAt? sep (a ++ sep :: b) = some (a, b) := by
  induction a with
  | nil => simp [cutAt?]
  | cons c a ih =>
    have hc := List.ne_of_not_mem_cons h
    rw [List.cons_append, cutAt?, if_neg hc.symm, ih (List.not_mem_of_not_mem_cons h)]
    rfl

theorem not_mem_of_cutAt?_eq_none (h : t.cutAt? sep = none) : sep ∉ t := by
  intro hmem
  obtain ⟨a, b, rfl, ha⟩ := List.eq_append_cons_of_mem hmem
  rw [cutAt?_append ha] at h
  cases h

theorem not_mem_of_cutAtLast?_eq_none (h : t.cutAtLast? sep = none) : sep ∉ t := by
  induction t with
  | nil => simp
  | cons c cs ih =>
    unfold cutAtLast? at h
    split at h
    · cases h
    · rename_i hrest
      split at h
      · cases h
      · rename_i hc
        exact List.not_mem_cons_of_ne_of_not_mem (Ne.symm hc) (ih hrest)

/-- Cutting at the last occurrence loses that character only, and it is the last one. -/
theorem of_cutAtLast? (h : t.cutAtLast? sep = some (front, rest)) :
    t = front ++ sep :: rest ∧ sep ∉ rest := by
  induction t generalizing front with
  | nil => cases h
  | cons c cs ih =>
    unfold cutAtLast? at h
    split at h
    · rename_i found hfound
      cases h
      obtain ⟨hsplit, hlast⟩ := ih hfound
      exact ⟨by rw [hsplit]; rfl, hlast⟩
    · rename_i hrest
      split at h
      · rename_i hc
        cases h
        exact ⟨by rw [hc]; rfl, not_mem_of_cutAtLast?_eq_none hrest⟩
      · cases h

theorem cutAtLast?_eq_none (h : sep ∉ t) : t.cutAtLast? sep = none := by
  cases hcut : t.cutAtLast? sep with
  | none => rfl
  | some found =>
    obtain ⟨front, rest⟩ := found
    obtain ⟨hsplit, -⟩ := of_cutAtLast? hcut
    exact absurd (by rw [hsplit]; simp) h

theorem cutAtLast?_append (h : sep ∉ b) : cutAtLast? sep (a ++ sep :: b) = some (a, b) := by
  induction a with
  | nil =>
    rw [List.nil_append, cutAtLast?, cutAtLast?_eq_none h]
    simp
  | cons c a ih => rw [List.cons_append, cutAtLast?, ih]

theorem beforeLast_append (h : sep ∉ b) : beforeLast sep (a ++ sep :: b) = a := by
  rw [beforeLast, cutAtLast?_append h]

theorem afterLast_append (h : sep ∉ b) : afterLast sep (a ++ sep :: b) = b := by
  rw [afterLast, cutAtLast?_append h]

/-- What follows the last occurrence is free of the character. -/
theorem not_mem_afterLast (sep : Char) (t : Text) : sep ∉ t.afterLast sep := by
  unfold afterLast
  split
  · rename_i hcut
    exact (of_cutAtLast? hcut).2
  · rename_i hcut
    exact not_mem_of_cutAtLast?_eq_none hcut

theorem afterLast_subset : t.afterLast sep ⊆ t := by
  unfold afterLast
  split
  · rename_i hcut
    rw [(of_cutAtLast? hcut).1]
    exact fun c hc => List.mem_append_right _ (List.mem_cons_of_mem _ hc)
  · exact List.Subset.refl _

theorem afterLast_eq_self (h : sep ∉ t) : t.afterLast sep = t := by
  rw [afterLast, cutAtLast?_eq_none h]

theorem beforeLast_subset : t.beforeLast sep ⊆ t := by
  unfold beforeLast
  split
  · rename_i hcut
    rw [(of_cutAtLast? hcut).1]
    exact List.subset_append_left _ _
  · exact List.nil_subset _

/-! ### Occurrences -/

/-- **An occurrence does not reach over a character that the literal does not have.** -/
theorem infix_append_cons_iff (hsep : sep ∉ m) : m <:+: a ++ sep :: b ↔ m <:+: a ∨ m <:+: b := by
  have hbegins : m <+: sep :: b → m <:+: b := by
    intro h
    cases m with
    | nil => exact List.nil_infix
    | cons c rest =>
      obtain ⟨rfl, -⟩ := List.cons_prefix_cons.mp h
      exact absurd (List.mem_cons_self ..) hsep
  constructor
  · intro h
    rcases List.infix_append_iff.mp h with h | h | ⟨x, y, rfl, hx, hy⟩
    · exact .inl h
    · exact .inr ((List.infix_cons_iff.mp h).elim hbegins id)
    · cases y with
      | nil =>
        rw [List.append_nil]
        exact .inl hx.isInfix
      | cons c y =>
        obtain ⟨rfl, -⟩ := List.cons_prefix_cons.mp hy
        exact absurd (by simp) hsep
  · rintro (h | h)
    · exact h.trans (List.prefix_append _ _).isInfix
    · exact h.trans ((List.suffix_cons sep b).trans (List.suffix_append a _)).isInfix

/-- An occurrence does not begin with a character that the literal does not begin with. -/
theorem infix_append_iff_of_not_mem (hlead : lead ∉ a) :
    lead :: m <:+: a ++ b ↔ lead :: m <:+: b := by
  induction a with
  | nil => rfl
  | cons c a ih =>
    have hc := List.ne_of_not_mem_cons hlead
    rw [List.cons_append, List.infix_cons_iff, List.cons_prefix_cons,
      ih (List.not_mem_of_not_mem_cons hlead)]
    simp [hc]

/-- A character that is in no piece and not between them is not in what they are joined to. -/
theorem not_mem_join {pieces : List Text} (between : Text) (hbetween : c ∉ between)
    (h : ∀ piece ∈ pieces, c ∉ piece) : c ∉ join between pieces := by
  unfold join
  induction pieces with
  | nil => simp
  | cons piece rest ih =>
    have hrest := ih fun other hother => h other (List.mem_cons_of_mem _ hother)
    have hpiece := h piece (List.mem_cons_self ..)
    cases rest with
    | nil => simpa using hpiece
    | cons next rest =>
      rw [List.intercalate_cons_cons]
      simp [hpiece, hbetween, hrest]

/-- A literal stands in pieces that are joined by a character which it does not have. -/
theorem infix_join_iff (hsep : sep ∉ m) (hne : m ≠ []) (pieces : List Text) :
    m <:+: Text.join [sep] pieces ↔ ∃ piece ∈ pieces, m <:+: piece := by
  unfold Text.join
  induction pieces with
  | nil => simp [hne]
  | cons piece rest ih =>
    cases rest with
    | nil => simp
    | cons next rest =>
      rw [List.intercalate_cons_cons, List.append_assoc, List.singleton_append,
        infix_append_cons_iff hsep, ih]
      simp

/-- A tail that begins with a character which the front does not have is a tail of the back. -/
theorem suffix_of_suffix_append (hc : c ∉ a) (h : c :: rest <:+ a ++ b) : c :: rest <:+ b := by
  obtain ⟨lead, hlead⟩ := h
  rcases List.append_eq_append_iff.mp hlead with ⟨middle, rfl, hb⟩ | ⟨middle, -, hb⟩
  · cases middle with
    | nil => exact ⟨[], hb⟩
    | cons d middle =>
      obtain ⟨rfl, -⟩ := List.cons.inj hb
      exact absurd (by simp) hc
  · exact ⟨middle, hb.symm⟩

/-! ### Markers -/

/-- **A marker**: a literal on one line that begins with a character which it has only once. -/
structure IsMarker (m : Text) : Prop where
  lead : ∃ c rest, m = c :: rest ∧ c ∉ rest
  line : '\n' ∉ m

/-- An occurrence that starts in front of a marker ends in front of it. -/
theorem IsMarker.prefix_of_append (hm : IsMarker m) (hne : a ≠ []) (h : m <+: a ++ m) :
    m <+: a := by
  obtain ⟨c, rest, hcons, honce⟩ := hm.lead
  obtain ⟨back, hback⟩ := h
  rcases List.append_eq_append_iff.mp hback with ⟨tail, rfl, -⟩ | ⟨tail, htail, hagain⟩
  · exact List.prefix_append _ _
  · cases tail with
    | nil =>
      have hsame : m = a := by rw [htail, List.append_nil]
      exact hsame ▸ List.prefix_rfl
    | cons d tail =>
      -- the marker would begin again inside itself
      obtain ⟨e, a, rfl⟩ := List.exists_cons_of_ne_nil hne
      rw [hcons] at htail hagain
      obtain ⟨rfl, rfl⟩ := List.cons.inj htail
      obtain ⟨rfl, -⟩ := List.cons.inj hagain
      exact absurd (by simp) honce

/-- What stands in front of the first occurrence of a literal. -/
def upTo? (m : Text) : Text → Option Text
  | [] => if m = [] then some [] else none
  | c :: cs => if startsWith (c :: cs) m then some [] else (upTo? m cs).map (c :: ·)

/-- **A literal stands once in a text, in its last line.** -/
def StandsOnce (m t : Text) : Prop := ∃ p, '\n' ∉ t.drop p ∧ ∀ q, t.HasAt q m ↔ q = p

theorem IsMarker.standsOnce_iff (hm : IsMarker m) : StandsOnce m (a ++ m) ↔ ¬m <:+: a := by
  have hstands : HasAt (a ++ m) a.length m := by simp [HasAt]
  constructor
  · rintro ⟨p, -, honce⟩ ⟨front, back, rfl⟩
    have hfront : HasAt (front ++ m ++ back ++ m) front.length m := by
      unfold HasAt
      rw [List.append_assoc, List.append_assoc, List.drop_left]
      exact List.prefix_append _ _
    have hsame := ((honce _).mp hfront).trans ((honce _).mp hstands).symm
    obtain ⟨c, rest, rfl, -⟩ := hm.lead
    simp only [List.length_append, List.length_cons] at hsame
    omega
  · intro h
    refine ⟨a.length, by rw [List.drop_left]; exact hm.line, fun q => ⟨fun hq => ?_, ?_⟩⟩
    · rcases Nat.lt_trichotomy q a.length with hlt | heq | hgt
      · unfold HasAt at hq
        rw [List.drop_append_of_le_length (Nat.le_of_lt hlt)] at hq
        have hne : a.drop q ≠ [] := by
          rw [ne_eq, List.drop_eq_nil_iff]
          omega
        exact absurd ((hm.prefix_of_append hne hq).isInfix.trans (List.drop_suffix q a).isInfix) h
      · exact heq
      · obtain ⟨c, rest, rfl, -⟩ := hm.lead
        have hlength := hq.length_le (List.cons_ne_nil _ _)
        rw [List.length_append] at hlength
        omega
    · rintro rfl
      exact hstands

/-- Reading up to a marker at the end stops in front of it if it does not stand before, and at an
earlier one otherwise. -/
theorem IsMarker.upTo?_append (hm : IsMarker m) (a : Text) :
    (¬m <:+: a ∧ upTo? m (a ++ m) = some a) ∨
      ∃ front back, a = front ++ (m ++ back) ∧ upTo? m (a ++ m) = some front := by
  obtain ⟨c, rest, hcons, -⟩ := hm.lead
  induction a with
  | nil =>
    refine .inl ⟨fun h => ?_, ?_⟩
    · rw [List.infix_nil.mp h] at hcons
      cases hcons
    · rw [List.nil_append, hcons, upTo?, if_pos (by simp [startsWith])]
  | cons d a ih =>
    by_cases hstarts : m <+: d :: a
    · obtain ⟨back, hback⟩ := hstarts
      refine .inr ⟨[], back, hback.symm, ?_⟩
      have hstarts : startsWith (d :: a ++ m) m = true := by
        rw [startsWith, List.isPrefixOf_iff_prefix, ← hback, List.append_assoc]
        exact List.prefix_append _ _
      rw [List.cons_append] at hstarts ⊢
      rw [upTo?, if_pos hstarts]
    · have hnot : ¬startsWith (d :: (a ++ m)) m = true := by
        rw [startsWith, List.isPrefixOf_iff_prefix, ← List.cons_append]
        exact fun h => hstarts (hm.prefix_of_append (List.cons_ne_nil _ _) h)
      rw [List.cons_append, upTo?, if_neg hnot]
      rcases ih with ⟨hnot, hread⟩ | ⟨front, back, rfl, hread⟩
      · refine .inl ⟨fun h => ?_, by rw [hread]; rfl⟩
        exact (List.infix_cons_iff.mp h).elim hstarts hnot
      · exact .inr ⟨d :: front, back, rfl, by rw [hread]; rfl⟩

/-! ### Replacing a literal -/

section

variable {needle replacement : Text}

theorem replaceFrom_skip (front t : Text) :
    replaceFrom needle replacement front.length (front ++ t) = replace needle replacement t := by
  induction front with
  | nil => rfl
  | cons c front ih => exact ih

/-- A literal at the front is replaced. -/
theorem replace_append (hne : needle ≠ []) (t : Text) :
    replace needle replacement (needle ++ t) = replacement ++ replace needle replacement t := by
  obtain ⟨c, rest, rfl⟩ := List.exists_cons_of_ne_nil hne
  have hstarts : startsWith (c :: (rest ++ t)) (c :: rest) = true :=
    List.isPrefixOf_iff_prefix.mpr (List.prefix_append (c :: rest) t)
  rw [List.cons_append, replace, replaceFrom, if_pos hstarts]
  exact congrArg (replacement ++ ·) (replaceFrom_skip rest t)

/-- A character stays if the literal is not at the front. -/
theorem replace_cons (h : ¬needle <+: c :: t) :
    replace needle replacement (c :: t) = c :: replace needle replacement t := by
  have hstarts : ¬startsWith (c :: t) needle = true := fun hstarts =>
    h (List.isPrefixOf_iff_prefix.mp hstarts)
  rw [replace, replaceFrom, if_neg hstarts]
  rfl

/-- What is in front of the literal's first character stays. -/
theorem replace_append_of_not_mem (h : lead ∉ front) (t : Text) :
    replace (lead :: needle) replacement (front ++ t) =
      front ++ replace (lead :: needle) replacement t := by
  induction front with
  | nil => rfl
  | cons c front ih =>
    have hnot : ¬lead :: needle <+: c :: (front ++ t) := fun hstarts =>
      List.ne_of_not_mem_cons h (List.cons_prefix_cons.mp hstarts).1
    rw [List.cons_append, replace_cons hnot, ih (List.not_mem_of_not_mem_cons h), List.cons_append]

/-- Replacing a single character, place by place. -/
theorem replace_singleton (a : Char) (replacement t : Text) :
    replace [a] replacement t = t.flatMap fun c => if c = a then replacement else [c] := by
  unfold replace
  induction t with
  | nil => rfl
  | cons c cs ih =>
    have hstarts : startsWith (c :: cs) [a] = decide (a = c) := by
      simp [startsWith, List.isPrefixOf, beq_eq_decide]
    rw [replaceFrom, hstarts, List.flatMap_cons]
    by_cases h : a = c
    · simpa [h] using ih
    · simpa [h, Ne.symm h] using ih

end

end NotePress.Text
