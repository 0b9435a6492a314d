import NotePress.Link.Reference
import NotePress.Proofs.Occurrences
import NotePress.Proofs.Trimming

/-!
# References as warnings show them

A parsed reference is written as its target with `#Heading` and `#^block` behind it. Read again, the
target ends at the first `#`, and what follows asks for one part only: a block if it opens with `^`,
else the heading behind the last `#`.

So a written reference means what it was read as when it asks for one part, and a heading does not
open with `^` (`Reference.Unambiguous`). A heading beside a block, as in `Note^r1#Results`, is
written `Note#Results#^r1` and is then the heading `^r1`, which is written `Note#^r1` and is then
the block `r1`. `rendered_reference_read_iff` says that there is no other case. The side conditions
on the way are what the parser leaves in each field (`Reference.WellFormed`).
-/

namespace NotePress

/-! ### What the parser leaves in a reference -/

/-- The fields of a parsed reference. A `^` is left in the target only if the fragment named a
block, and a block beside a heading was cut from the target. -/
structure Reference.WellFormed (r : Reference) : Prop where
  target : r.target.IsTrimmed
  heading : ∀ h ∈ r.heading, h.IsTrimmed ∧ '#' ∉ h
  block : ∀ b ∈ r.block, b.IsTrimmed
  hash : '#' ∉ r.target
  caret : '^' ∈ r.target → r.heading = none ∧ r.block ≠ none
  beside : ∀ b ∈ r.block, r.heading ≠ none → '#' ∉ b
  bar : '|' ∉ r.target ∧ (∀ h ∈ r.heading, '|' ∉ h) ∧ ∀ b ∈ r.block, '|' ∉ b

/-- A fragment asks for a block or for a heading, and never for both. -/
theorem readFragment_cases (fragment : Text) :
    (∃ block : Text, '^' :: block = fragment.trim ∧ readFragment fragment = (none, block.unlessBlank?)) ∨
    (fragment.trim.head? ≠ some '^' ∧
      readFragment fragment = ((fragment.trim.afterLast '#').unlessBlank?, none)) := by
  unfold readFragment
  split
  · rename_i block htrim
    exact .inl ⟨block, htrim.symm, rfl⟩
  · rename_i hnot
    refine .inr ⟨fun hhead => ?_, rfl⟩
    obtain ⟨block, hblock⟩ := List.head?_eq_some_iff.mp hhead
    exact hnot block hblock

theorem readFragment_block {block : Text} (h : block.IsTrimmed) :
    readFragment ('^' :: block) = (none, some block) := by
  have htrim := (Text.IsTrimmed.cons (c := '^') (by decide) h).trim
  unfold readFragment
  rw [htrim]
  simp only [h.unlessBlank?]

theorem readFragment_heading {fragment : Text} (h : fragment.IsTrimmed)
    (hcaret : fragment.head? ≠ some '^') :
    readFragment fragment = ((fragment.afterLast '#').unlessBlank?, none) := by
  rcases readFragment_cases fragment with ⟨block, hblock, -⟩ | ⟨-, hread⟩
  · rw [h.trim] at hblock
    exact absurd (by rw [← hblock]; rfl) hcaret
  · rw [hread, h.trim]

/-- What a fragment asks for is trimmed, and a heading is the innermost one. -/
theorem readFragment_fields {fragment : Text} {heading block : Option Text}
    (hread : readFragment fragment = (heading, block)) :
    (∀ h ∈ heading, h.IsTrimmed ∧ '#' ∉ h ∧ h ⊆ fragment) ∧
      (∀ b ∈ block, b.IsTrimmed ∧ b ⊆ fragment) ∧ (heading = none ∨ block = none) := by
  rcases readFragment_cases fragment with ⟨asked, hasked, heq⟩ | ⟨-, heq⟩
  · obtain ⟨rfl, rfl⟩ := Prod.mk.inj (hread.symm.trans heq)
    refine ⟨by simp, fun b hb => ?_, .inl rfl⟩
    obtain ⟨htrimmed, hsub⟩ := Text.isTrimmed_of_unlessBlank? hb
    have hcaret : asked ⊆ fragment.trim := hasked ▸ List.subset_cons_self _ _
    exact ⟨htrimmed, List.Subset.trans hsub (List.Subset.trans hcaret (Text.trim_subset _))⟩
  · obtain ⟨rfl, rfl⟩ := Prod.mk.inj (hread.symm.trans heq)
    refine ⟨fun h hh => ?_, by simp, .inr rfl⟩
    obtain ⟨htrimmed, hsub⟩ := Text.isTrimmed_of_unlessBlank? hh
    exact ⟨htrimmed, fun hhash => Text.not_mem_afterLast _ _ (hsub hhash),
      List.Subset.trans hsub (List.Subset.trans Text.afterLast_subset (Text.trim_subset _))⟩

/-- How a reference without its alias is cut. -/
theorem readTarget_cases (head : Text) :
    ('#' ∉ head ∧ '^' ∉ head ∧ readTarget head = (head, none, none)) ∨
    (∃ before after : Text, head = before ++ '^' :: after ∧ '#' ∉ head ∧ '^' ∉ before ∧
      readTarget head = (before, none, after.unlessBlank?)) ∨
    (∃ (target fragment : Text) (heading block : Option Text), head = target ++ '#' :: fragment ∧
      '#' ∉ target ∧ readFragment fragment = (heading, block) ∧ ('^' ∈ target → block ≠ none) ∧
      readTarget head = (target, heading, block)) ∨
    ∃ (before after fragment : Text) (heading : Option Text),
      head = before ++ '^' :: after ++ '#' :: fragment ∧ '#' ∉ before ++ '^' :: after ∧
      '^' ∉ before ∧ readFragment fragment = (heading, none) ∧
      readTarget head = (before, heading, after.unlessBlank?) := by
  unfold readTarget
  cases hhash : head.cutAt? '#' with
  | none =>
    have hhash := Text.not_mem_of_cutAt?_eq_none hhash
    cases hcaret : head.cutAt? '^' with
    | none => exact .inl ⟨hhash, Text.not_mem_of_cutAt?_eq_none hcaret, by simp [hcaret]⟩
    | some found =>
      obtain ⟨before, after⟩ := found
      exact .inr (.inl ⟨before, after, Text.eq_of_cutAt? hcaret, hhash,
        Text.not_mem_of_cutAt? hcaret, by simp [hcaret]⟩)
  | some found =>
    obtain ⟨target, fragment⟩ := found
    have hfront := Text.not_mem_of_cutAt? hhash
    have hsplit := Text.eq_of_cutAt? hhash
    obtain ⟨⟨heading, block⟩, hread⟩ : ∃ asked, readFragment fragment = asked := ⟨_, rfl⟩
    cases block with
    | some block =>
      exact .inr (.inr (.inl ⟨target, fragment, heading, block, hsplit, hfront, hread, by simp,
        by simp [hread]⟩))
    | none =>
      cases hcaret : target.cutAt? '^' with
      | none =>
        exact .inr (.inr (.inl ⟨target, fragment, heading, none, hsplit, hfront, hread,
          fun h => absurd h (Text.not_mem_of_cutAt?_eq_none hcaret), by simp [hread, hcaret]⟩))
      | some found =>
        obtain ⟨before, after⟩ := found
        have htarget := Text.eq_of_cutAt? hcaret
        exact .inr (.inr (.inr ⟨before, after, fragment, heading, htarget ▸ hsplit,
          htarget ▸ hfront, Text.not_mem_of_cutAt? hcaret, hread, by simp [hread, hcaret]⟩))

/-- A reference without an alias is read from its target and its fragment. -/
theorem Reference.parse?_of_no_bar {head : Text} (hbar : '|' ∉ head) :
    Reference.parse? head = (readTarget head).1.unlessBlank?.map fun target =>
      ⟨target, none, (readTarget head).2.1, (readTarget head).2.2, none⟩ := by
  unfold Reference.parse?
  simp only [Text.cutAt?_eq_none hbar]
  rfl

/-- The alias of a reference leaves its other fields alone. -/
theorem Reference.exists_readTarget {raw : Text} {r : Reference}
    (h : Reference.parse? raw = some r) : ∃ head target, '|' ∉ head ∧
      readTarget head = (target, r.heading, r.block) ∧ target.unlessBlank? = some r.target := by
  have hread : ∀ {head : Text} {shown : Option Text},
      ((readTarget head).1.unlessBlank?.map fun target => (⟨target,
        if (shown.bind DisplaySize.read?).isSome then none else shown, (readTarget head).2.1,
        (readTarget head).2.2, shown.bind DisplaySize.read?⟩ : Reference)) = some r →
      readTarget head = ((readTarget head).1, r.heading, r.block) ∧
        (readTarget head).1.unlessBlank? = some r.target := by
    intro head shown h
    obtain ⟨target, htarget, rfl⟩ := Option.map_eq_some_iff.mp h
    exact ⟨rfl, htarget⟩
  unfold Reference.parse? at h
  cases hcut : raw.cutAt? '|' with
  | none =>
    rw [hcut] at h
    exact ⟨raw, _, Text.not_mem_of_cutAt?_eq_none hcut, hread h⟩
  | some found =>
    rw [hcut] at h
    exact ⟨found.1, _, Text.not_mem_of_cutAt? hcut, hread h⟩

theorem Reference.wellFormed_of_parse? {raw : Text} {r : Reference}
    (h : Reference.parse? raw = some r) : r.WellFormed := by
  obtain ⟨head, cut, hbar, hcut, hblank⟩ := Reference.exists_readTarget h
  obtain ⟨htrimmed, hsub⟩ := Text.isTrimmed_of_unlessBlank? hblank
  obtain ⟨target, shown, heading, block, size⟩ := r
  simp only at hcut hblank htrimmed hsub
  have hout : ∀ {c : Char} {a b : Text}, c ∉ b → a ⊆ b → c ∉ a := fun hc hsub hmem => hc (hsub hmem)
  rcases readTarget_cases head with ⟨hhash, hcaret, heq⟩ |
    ⟨before, after, rfl, hhash, hcaret, heq⟩ |
    ⟨front, fragment, asked, named, rfl, hhash, hread, hcaret, heq⟩ |
    ⟨before, after, fragment, asked, rfl, hhash, hcaret, hread, heq⟩ <;>
    obtain ⟨rfl, hfields⟩ := Prod.mk.inj (hcut.symm.trans heq) <;>
    obtain ⟨rfl, rfl⟩ := Prod.mk.inj hfields
  · exact
      { target := htrimmed
        heading := by simp
        block := by simp
        hash := hout hhash hsub
        caret := fun h => absurd h (hout hcaret hsub)
        beside := by simp
        bar := ⟨hout hbar hsub, by simp, by simp⟩ }
  · simp only [List.mem_append, List.mem_cons, not_or] at hbar hhash
    have hafter : ∀ b ∈ after.unlessBlank?, b.IsTrimmed ∧ b ⊆ after := fun b hb =>
      Text.isTrimmed_of_unlessBlank? hb
    exact
      { target := htrimmed
        heading := by simp
        block := fun b hb => (hafter b hb).1
        hash := hout hhash.1 hsub
        caret := fun h => absurd h (hout hcaret hsub)
        beside := by simp
        bar := ⟨hout hbar.1 hsub, by simp, fun b hb => hout hbar.2.2 (hafter b hb).2⟩ }
  · simp only [List.mem_append, List.mem_cons, not_or] at hbar
    obtain ⟨hheading, hblock, hone⟩ := readFragment_fields hread
    exact
      { target := htrimmed
        heading := fun h hh => ⟨(hheading h hh).1, (hheading h hh).2.1⟩
        block := fun b hb => (hblock b hb).1
        hash := hout hhash hsub
        caret := fun h => ⟨hone.resolve_right (hcaret (hsub h)), hcaret (hsub h)⟩
        beside := fun b hb hsome => by
          rw [hone.resolve_left hsome] at hb
          cases hb
        bar := ⟨hout hbar.1 hsub, fun h hh => hout hbar.2.2 (hheading h hh).2.2,
          fun b hb => hout hbar.2.2 (hblock b hb).2⟩ }
  · simp only [List.mem_append, List.mem_cons, not_or] at hbar hhash
    obtain ⟨hheading, -, -⟩ := readFragment_fields hread
    have hafter : ∀ b ∈ after.unlessBlank?, b.IsTrimmed ∧ b ⊆ after := fun b hb =>
      Text.isTrimmed_of_unlessBlank? hb
    exact
      { target := htrimmed
        heading := fun h hh => ⟨(hheading h hh).1, (hheading h hh).2.1⟩
        block := fun b hb => (hafter b hb).1
        hash := hout hhash.1 hsub
        caret := fun h => absurd h (hout hcaret hsub)
        beside := fun b hb _ => hout hhash.2.2 (hafter b hb).2
        bar := ⟨hout hbar.1.1 hsub, fun h hh => hout hbar.2.2 (hheading h hh).2.2,
          fun b hb => hout hbar.1.2.2 (hafter b hb).2⟩ }

/-! ### Writing a reference, and reading it again -/

variable {r : Reference}

/-- What stands behind the `#` of a written reference. -/
def Reference.fragment? (r : Reference) : Option Text :=
  match r.heading, r.block with
  | none, none => none
  | none, some block => some ('^' :: block)
  | some heading, none => some heading
  | some heading, some block => some (heading ++ '#' :: '^' :: block)

theorem Reference.render_eq (r : Reference) :
    r.render = r.target ++ (r.fragment?.map ('#' :: ·)).getD [] := by
  unfold Reference.render Reference.fragment?
  cases r.heading <;> cases r.block <;> simp

/-- The heading and the block that a written reference asks for. -/
def Reference.asked (r : Reference) : Option Text × Option Text :=
  (r.fragment?.map readFragment).getD (none, none)

/-- A reference that asks for one part, by a heading that does not open with `^` if at all by a
heading. -/
def Reference.Unambiguous (r : Reference) : Prop :=
  ∀ heading ∈ r.heading, r.block = none ∧ heading.head? ≠ some '^'

instance : Decidable r.Unambiguous :=
  inferInstanceAs (Decidable (∀ heading ∈ r.heading, r.block = none ∧ heading.head? ≠ some '^'))

theorem Reference.WellFormed.fragment (hr : r.WellFormed) :
    ∀ fragment ∈ r.fragment?, fragment.IsTrimmed ∧ '|' ∉ fragment := by
  obtain ⟨target, shown, heading, block, size⟩ := r
  obtain ⟨-, hheadingBar, hblockBar⟩ := hr.bar
  have hmarked : ∀ b ∈ block, Text.IsTrimmed ('^' :: b) := fun b hb =>
    .cons (by decide) (hr.block b hb)
  intro fragment hfragment
  cases heading with
  | none =>
    cases block with
    | none => cases hfragment
    | some block =>
      cases hfragment
      exact ⟨hmarked block rfl, by simp [hblockBar block rfl]⟩
  | some heading =>
    obtain ⟨htrimmed, -⟩ := hr.heading heading rfl
    cases block with
    | none =>
      cases hfragment
      exact ⟨htrimmed, hheadingBar fragment rfl⟩
    | some block =>
      cases hfragment
      refine ⟨htrimmed.append (.cons (by decide) (hmarked block rfl)), ?_⟩
      simp [hheadingBar heading rfl, hblockBar block rfl]

/-- Nothing is lost when one part is asked for plainly. -/
theorem Reference.WellFormed.asked_of_unambiguous (hr : r.WellFormed) (h : r.Unambiguous) :
    r.asked = (r.heading, r.block) := by
  obtain ⟨target, shown, heading, block, size⟩ := r
  cases heading with
  | none =>
    cases block with
    | none => rfl
    | some block => exact readFragment_block (hr.block block rfl)
  | some heading =>
    obtain ⟨rfl, hcaret⟩ := h heading rfl
    obtain ⟨htrimmed, hhash⟩ := hr.heading heading rfl
    have hread := readFragment_heading htrimmed hcaret
    rwa [Text.afterLast_eq_self hhash, htrimmed.unlessBlank?] at hread

/-- Otherwise there is a heading, and it is not the one that is asked for. -/
theorem Reference.WellFormed.asked_of_not_unambiguous (hr : r.WellFormed) (h : ¬r.Unambiguous) :
    ∃ heading, r.heading = some heading ∧ r.asked.1 ≠ some heading := by
  have hfragment := hr.fragment
  obtain ⟨target, shown, heading, block, size⟩ := r
  simp only [Reference.Unambiguous, not_forall, not_and, not_not] at h
  obtain ⟨heading, rfl, hplain⟩ := h
  refine ⟨heading, rfl, ?_⟩
  by_cases hcaret : heading.head? = some '^'
  · -- The fragment opens with `^` and is read as a block.
    have hopens : ∀ behind : Text, Text.IsTrimmed (heading ++ behind) →
        (readFragment (heading ++ behind)).1 = none := by
      intro behind htrimmed
      rcases readFragment_cases (heading ++ behind) with ⟨_, -, hread⟩ | ⟨hnot, -⟩
      · rw [hread]
      · rw [htrimmed.trim, List.head?_append, hcaret] at hnot
        exact absurd rfl hnot
    have hnone : (Reference.asked ⟨target, shown, some heading, block, size⟩).1 = none := by
      cases block with
      | none =>
        have hread := hopens [] (by rw [List.append_nil]; exact (hr.heading heading rfl).1)
        rwa [List.append_nil] at hread
      | some block => exact hopens _ (hfragment _ rfl).1
    rw [hnone]
    exact (Option.some_ne_none heading).symm
  · -- The block becomes the innermost heading, `^` included.
    cases block with
    | none => exact absurd (hplain rfl) hcaret
    | some block =>
      have hhash : '#' ∉ '^' :: block := by
        simp [hr.beside block rfl (Option.some_ne_none heading)]
      have hread := readFragment_heading (hfragment _ rfl).1 (by
        rw [List.head?_append_of_ne_nil _ (hr.heading heading rfl).1.ne_nil]
        exact hcaret)
      rw [Text.afterLast_append hhash,
        (Text.IsTrimmed.cons (by decide) (hr.block block rfl)).unlessBlank?] at hread
      intro heq
      have hsame : some ('^' :: block) = some heading := (congrArg Prod.fst hread).symm.trans heq
      cases hsame
      exact hcaret rfl

/-- A written reference has the target that it was written with, and what its fragment asks for. -/
theorem Reference.WellFormed.parse?_render (hr : r.WellFormed) :
    Reference.parse? r.render = some ⟨r.target, none, r.asked.1, r.asked.2, none⟩ := by
  have hbar : '|' ∉ r.render := by
    rw [r.render_eq]
    cases hfragment : r.fragment? with
    | none => simp [hr.bar.1]
    | some fragment => simp [hr.bar.1, (hr.fragment fragment hfragment).2]
  have hcut : readTarget r.render = (r.target, r.asked) := by
    have hcaret : '^' ∈ r.target → r.asked.2 ≠ none := by
      intro hmem
      obtain ⟨hheading, hblock⟩ := hr.caret hmem
      rw [hr.asked_of_unambiguous (by simp [Reference.Unambiguous, hheading])]
      exact hblock
    rw [r.render_eq]
    unfold Reference.asked at hcaret ⊢
    cases hfragment : r.fragment? with
    | none =>
      rw [hfragment] at hcaret
      have hnot : '^' ∉ r.target := fun h => hcaret h rfl
      simp [readTarget, Text.cutAt?_eq_none hr.hash, Text.cutAt?_eq_none hnot]
    | some fragment =>
      rw [hfragment] at hcaret
      simp only [Option.map_some, Option.getD_some] at hcaret ⊢
      unfold readTarget
      rw [Text.cutAt?_append hr.hash]
      obtain ⟨⟨heading, block⟩, hread⟩ : ∃ asked, readFragment fragment = asked := ⟨_, rfl⟩
      simp only [hread] at hcaret ⊢
      cases block with
      | some block => rfl
      | none =>
        have hnot : '^' ∉ r.target := fun h => hcaret h rfl
        rw [Text.cutAt?_eq_none hnot]
  rw [Reference.parse?_of_no_bar hbar, hcut, hr.target.unlessBlank?]
  rfl

/-- **A reference that a warning shows can be read, and has the same target. It asks for the same
part just when it is unambiguous.** -/
theorem rendered_reference_read_iff {raw : Text} (h : Reference.parse? raw = some r) :
    ∃ read, Reference.parse? r.render = some read ∧
      read.target = r.target ∧ read.shown = none ∧ read.size = none ∧
      (read.heading = r.heading ∧ read.block = r.block ↔ r.Unambiguous) ∧
      (read.part = r.part ↔ r.Unambiguous) := by
  have hr := Reference.wellFormed_of_parse? h
  refine ⟨_, hr.parse?_render, rfl, rfl, rfl, ?_⟩
  by_cases hplain : r.Unambiguous
  · rw [hr.asked_of_unambiguous hplain]
    exact ⟨iff_of_true ⟨rfl, rfl⟩ hplain, iff_of_true rfl hplain⟩
  · obtain ⟨heading, hheading, hother⟩ := hr.asked_of_not_unambiguous hplain
    refine ⟨iff_of_false (fun hsame => hother (hsame.1.trans hheading)) hplain,
      iff_of_false (fun hsame => hother ?_) hplain⟩
    unfold Reference.part at hsame
    rw [hheading] at hsame
    split at hsame
    · rename_i asked hasked
      exact hasked.trans (congrArg some (Part.under.inj hsame))
    · cases hsame
    · cases hsame

/-- `A^b#^c#d` has a `^` in the target, a block with a `#`, and no heading. -/
theorem rendered_reference_read_iff_block :
    Reference.parse? "A^b# ^ c#d |300".toList =
        some ⟨"A^b".toList, none, none, some "c#d".toList, some ⟨300, none⟩⟩ ∧
      Reference.parse? "A^b#^c#d".toList =
        some ⟨"A^b".toList, none, none, some "c#d".toList, none⟩ := by
  have hraw : Reference.parse? "A^b# ^ c#d |300".toList =
      some ⟨"A^b".toList, none, none, some "c#d".toList, some ⟨300, none⟩⟩ := by decide
  obtain ⟨read, hread, htarget, hshown, hsize, hsame, -⟩ := rendered_reference_read_iff hraw
  obtain ⟨hheading, hblock⟩ := hsame.mpr (by decide)
  refine ⟨hraw, hread.trans ?_⟩
  obtain ⟨target, shown, heading, block, size⟩ := read
  simp only at htarget hshown hsize hheading hblock
  rw [htarget, hshown, hsize, hheading, hblock]

/-- A heading beside a block is shown as a heading with the block in it, and that as a block. -/
theorem heading_beside_block_lost :
    (∃ r, Reference.parse? "Note^r1#Results".toList = some r ∧
      r.heading = some "Results".toList ∧ r.block = some "r1".toList ∧
      r.render = "Note#Results#^r1".toList) ∧
    (∃ r, Reference.parse? "Note#Results#^r1".toList = some r ∧
      r.heading = some "^r1".toList ∧ r.block = none ∧ r.render = "Note#^r1".toList) ∧
    ∃ r, Reference.parse? "Note#^r1".toList = some r ∧
      r.heading = none ∧ r.block = some "r1".toList := by
  refine ⟨⟨⟨"Note".toList, none, some "Results".toList, some "r1".toList, none⟩, ?_⟩,
    ⟨⟨"Note".toList, none, some "^r1".toList, none, none⟩, ?_⟩,
    ⟨⟨"Note".toList, none, none, some "r1".toList, none⟩, ?_⟩⟩ <;> decide

end NotePress
