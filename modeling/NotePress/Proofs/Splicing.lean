import Mathlib.Data.List.Pairwise
import NotePress.Text.Scan

/-!
# Where pieces of a text stand after splicing

`Text.splice` puts replacements into a text. Whatever the replacements do not touch is still there,
and each replacement is there as a whole. `Text.landing` says where: as far into the new text as
what is in front of it, spliced by itself, is long. Pieces that stand one behind the other do so
afterwards.
-/

namespace NotePress

/-- Two parts of a text do not meet. -/
def Span.Apart (a b : Span) : Prop := a.stop ≤ b.start ∨ b.stop ≤ a.start

theorem Span.Apart.symm {a b : Span} (h : a.Apart b) : b.Apart a := Or.symm h

/-- Of things in order and apart, different ones are apart. -/
theorem Span.apart_of_pairwise {α : Type} {span : α → Span} {as : List α}
    (h : as.Pairwise fun a b => (span a).stop ≤ (span b).start) {a b : α} (ha : a ∈ as)
    (hb : b ∈ as) (hne : a ≠ b) : (span a).Apart (span b) := by
  have hapart : as.Pairwise fun a b => (span a).Apart (span b) := h.imp Or.inl
  have : Std.Symm fun a b : α => (span a).Apart (span b) := ⟨fun _ _ => Span.Apart.symm⟩
  exact hapart.forall ha hb hne

namespace Text

/-- A piece stands in a text at a position. -/
def HasAt (t : Text) (p : Nat) (piece : Text) : Prop := piece <+: t.drop p

/-- Parts of a text that come in order and apart; none is empty. -/
def Fits (t : Text) (spans : List Span) : Prop :=
  spans.Pairwise (fun a b => a.stop ≤ b.start) ∧ ∀ s ∈ spans, s.start < s.stop ∧ s.stop ≤ t.length

/-- What is put in at some of the places of a list in order and apart. -/
theorem fits_filterMap {α : Type} {t : Text} {as : List α} {span : α → Span} {new : α → Option Text}
    (horder : as.Pairwise fun a b => (span a).stop ≤ (span b).start)
    (hlt : ∀ a ∈ as, (span a).start < (span a).stop ∧ (span a).stop ≤ t.length) :
    t.Fits ((as.filterMap fun a => (new a).map (span a, ·)).map (·.1)) := by
  constructor
  · refine List.pairwise_map.mpr (List.Pairwise.filterMap _ (fun a b hab p hp q hq => ?_) horder)
    obtain ⟨_, -, rfl⟩ := Option.map_eq_some_iff.mp hp
    obtain ⟨_, -, rfl⟩ := Option.map_eq_some_iff.mp hq
    exact hab
  · intro s hs
    obtain ⟨part, hpart, rfl⟩ := List.mem_map.mp hs
    obtain ⟨a, ha, hpart⟩ := List.mem_filterMap.mp hpart
    obtain ⟨_, -, rfl⟩ := Option.map_eq_some_iff.mp hpart
    exact hlt a ha

/-- The position in the spliced text of what stands at `p` and is not replaced, or of what replaces
the part that starts at `p`. -/
def landing (t : Text) (parts : List (Span × Text)) (p : Nat) : Nat :=
  (splice (t.take p) (parts.filter (·.1.stop ≤ p))).length

/-! ### Pieces -/

section

variable {t : Text} {p : Nat} {piece : Text}

theorem hasAt_iff_append : t.HasAt p piece ∧ p ≤ t.length ↔
    ∃ front back, t = front ++ piece ++ back ∧ front.length = p := by
  constructor
  · rintro ⟨⟨back, hback⟩, hp⟩
    refine ⟨t.take p, back, ?_, List.length_take_of_le hp⟩
    rw [List.append_assoc, hback, List.take_append_drop]
  · rintro ⟨front, back, rfl, rfl⟩
    constructor
    · unfold HasAt
      rw [List.append_assoc, List.drop_left]
      exact List.prefix_append piece back
    · simp only [List.length_append]
      omega

theorem HasAt.append_front (h : t.HasAt p piece) (front : Text) :
    HasAt (front ++ t) (front.length + p) piece := by
  unfold HasAt
  rw [← List.drop_drop, List.drop_left]
  exact h

theorem HasAt.append_back (h : t.HasAt p piece) (back : Text) : HasAt (t ++ back) p piece := by
  unfold HasAt
  rw [List.drop_append]
  exact List.IsPrefix.trans h (List.prefix_append _ _)

/-- A piece of a piece. -/
theorem HasAt.inner {q : Nat} {part : Text} (h : t.HasAt p piece) (h' : piece.HasAt q part) :
    t.HasAt (p + q) part := by
  obtain ⟨rest, hrest⟩ := h
  unfold HasAt
  rw [← List.drop_drop, ← hrest, List.drop_append]
  exact List.IsPrefix.trans h' (List.prefix_append _ _)

/-- Of two pieces of a text, one that lies within the other is a piece of it. -/
theorem HasAt.of_within {q : Nat} {part : Text} (h : t.HasAt p piece) (h' : t.HasAt (p + q) part)
    (hwithin : q + part.length ≤ piece.length) : piece.HasAt q part := by
  obtain ⟨rest, hrest⟩ := h
  unfold HasAt at *
  rw [← List.drop_drop, ← hrest, List.drop_append_of_le_length (by omega)] at h'
  exact List.prefix_of_prefix_length_le h' (List.prefix_append _ _)
    (by rw [List.length_drop]; omega)

/-- A piece that is not empty lies in the text. -/
theorem HasAt.length_le (h : t.HasAt p piece) (hpiece : piece ≠ []) :
    p + piece.length ≤ t.length := by
  have hlength := List.IsPrefix.length_le h
  have hpos := List.length_pos_iff.mpr hpiece
  rw [List.length_drop] at hlength
  omega

theorem HasAt.take {q : Nat} (h : t.HasAt p piece) (hq : p + piece.length ≤ q) :
    HasAt (t.take q) p piece := by
  unfold HasAt
  rw [List.drop_take]
  exact List.prefix_take_iff.mpr ⟨h, by omega⟩

theorem HasAt.slice_eq (h : t.HasAt p piece) : t.slice p (p + piece.length) = piece := by
  unfold slice
  rw [Nat.add_sub_cancel_left, ← List.prefix_iff_eq_take.mp h]

end

/-! ### Splicing in two halves -/

section

variable {t : Text} {parts : List (Span × Text)}

theorem slice_append_slice (t : Text) {a b c : Nat} (hab : a ≤ b) (hbc : b ≤ c) :
    t.slice a b ++ t.slice b c = t.slice a c := by
  unfold slice
  rw [show t.drop b = (t.drop a).drop (b - a) by rw [List.drop_drop]; congr 1; omega,
    show c - a = (b - a) + (c - b) by omega, List.take_add]

theorem slice_append_drop (t : Text) {a b : Nat} (hab : a ≤ b) :
    t.slice a b ++ t.drop b = t.drop a := by
  unfold slice
  rw [show t.drop b = (t.drop a).drop (b - a) by rw [List.drop_drop]; congr 1; omega,
    List.take_append_drop]

theorem slice_take (t : Text) {a b p : Nat} (hb : b ≤ p) : slice (t.take p) a b = t.slice a b := by
  unfold slice
  rw [List.drop_take, List.take_take]
  congr 1
  omega

/-- What is in front of the first part is copied. -/
theorem spliceFrom_eq_slice_append {pos q : Nat} (hpos : pos ≤ q)
    (hq : ∀ part ∈ parts, q ≤ part.1.start) :
    spliceFrom t pos parts = t.slice pos q ++ spliceFrom t q parts := by
  cases parts with
  | nil => exact (slice_append_drop t hpos).symm
  | cons part rest =>
    rw [spliceFrom, spliceFrom,
      ← slice_append_slice t hpos (hq part (List.mem_cons_self ..))]
    simp only [List.append_assoc]

/-- What is in front of a position that no part covers is spliced by itself. -/
theorem spliceFrom_eq_append (hfits : t.Fits (parts.map (·.1))) {pos p : Nat} (hpos : pos ≤ p)
    (hp : ∀ part ∈ parts, part.1.stop ≤ p ∨ p ≤ part.1.start) :
    spliceFrom t pos parts =
      spliceFrom (t.take p) pos (parts.filter (·.1.stop ≤ p)) ++
        spliceFrom t p (parts.filter (p < ·.1.stop)) := by
  induction parts generalizing pos with
  | nil =>
    show t.drop pos = (t.take p).drop pos ++ t.drop p
    rw [← slice_append_drop t hpos, List.drop_take]
    rfl
  | cons part rest ih =>
    obtain ⟨horder, hall⟩ := hfits
    rw [List.map_cons, List.pairwise_cons] at horder
    have hrest : t.Fits (rest.map (·.1)) :=
      ⟨horder.2, fun s hs => hall s (List.mem_cons_of_mem _ hs)⟩
    have hlater : ∀ other ∈ rest, part.1.stop ≤ other.1.start :=
      fun other hother => horder.1 _ (List.mem_map_of_mem hother)
    rcases hp part (List.mem_cons_self ..) with hbefore | hafter
    · have hstart := (hall part.1 (List.mem_cons_self ..)).1
      rw [List.filter_cons_of_pos (by simpa using hbefore),
        List.filter_cons_of_neg (by simpa using hbefore), spliceFrom, spliceFrom,
        slice_take t (by omega),
        ih hrest hbefore fun other h => hp other (List.mem_cons_of_mem _ h)]
      simp only [List.append_assoc]
    · have hfront : ∀ other ∈ part :: rest, p < other.1.stop := by
        intro other hother
        have hlt := (hall other.1 (List.mem_map_of_mem hother)).1
        rcases List.mem_cons.mp hother with rfl | hother
        · omega
        · have := hlater other hother
          have := (hall part.1 (List.mem_cons_self ..)).1
          omega
      rw [List.filter_eq_nil_iff.mpr fun other h => by simpa using hfront other h,
        List.filter_eq_self.mpr fun other h => by simpa using hfront other h,
        spliceFrom_eq_slice_append hpos]
      · rw [spliceFrom, List.drop_take]
        rfl
      · intro other hother
        rcases List.mem_cons.mp hother with rfl | hother
        · exact hafter
        · have := hlater other hother
          have := (hall part.1 (List.mem_cons_self ..)).1
          omega

/-! ### Where pieces stand -/

/-- **What no part touches** stands where it lands. -/
theorem HasAt.splice (hfits : t.Fits (parts.map (·.1))) {p : Nat} {piece : Text}
    (h : t.HasAt p piece) (hpiece : piece ≠ [])
    (hapart : ∀ part ∈ parts, part.1.Apart ⟨p, p + piece.length⟩) :
    (t.splice parts).HasAt (t.landing parts p) piece := by
  have hlength := h.length_le hpiece
  have hp : ∀ part ∈ parts, part.1.stop ≤ p ∨ p ≤ part.1.start := fun part hpart => by
    rcases hapart part hpart with h | h
    · exact .inl h
    · exact .inr (Nat.le_trans (Nat.le_add_right _ _) h)
  unfold Text.splice landing
  rw [spliceFrom_eq_append hfits (Nat.zero_le p) hp]
  rw [spliceFrom_eq_slice_append (q := p + piece.length) (Nat.le_add_right _ _), h.slice_eq]
  · exact ((show piece.HasAt 0 piece from List.prefix_rfl).append_back _).append_front _
  · intro part hpart
    obtain ⟨hmem, hlt⟩ := List.mem_filter.mp hpart
    have hlt : p < part.1.stop := by simpa using hlt
    rcases hapart part hmem with h | h
    · exact absurd hlt (Nat.not_lt.mpr h)
    · exact h

/-- A replacement follows on what is in front of its part. -/
theorem exists_splice_eq_of_mem (hfits : t.Fits (parts.map (·.1))) {s : Span} {new : Text}
    (h : (s, new) ∈ parts) :
    ∃ back, t.splice parts =
      Text.splice (t.take s.start) (parts.filter (·.1.stop ≤ s.start)) ++ new ++ back := by
  obtain ⟨before, after, rfl⟩ := List.append_of_mem h
  have hall := hfits.2
  have horder := hfits.1
  have hlt : s.start < s.stop := (hall s (List.mem_map_of_mem h)).1
  rw [List.map_append, List.map_cons, List.pairwise_append] at horder
  obtain ⟨-, hlater, hearlier⟩ := horder
  have hbefore : ∀ part ∈ before, part.1.stop ≤ s.start := fun part hpart =>
    hearlier _ (List.mem_map_of_mem hpart) s (List.mem_cons_self ..)
  have hafter : ∀ part ∈ after, s.stop ≤ part.1.start := fun part hpart =>
    (List.pairwise_cons.mp hlater).1 _ (List.mem_map_of_mem hpart)
  have hp : ∀ part ∈ before ++ (s, new) :: after,
      part.1.stop ≤ s.start ∨ s.start ≤ part.1.start := by
    intro part hpart
    rcases List.mem_append.mp hpart with hpart | hpart
    · exact .inl (hbefore part hpart)
    · rcases List.mem_cons.mp hpart with rfl | hpart
      · exact .inr (Nat.le_refl _)
      · have := hafter part hpart
        exact .inr (by omega)
  have hbehind : (before ++ (s, new) :: after).filter (s.start < ·.1.stop) = (s, new) :: after := by
    rw [List.filter_append, List.filter_eq_nil_iff.mpr fun part hpart => by
        simpa using hbefore part hpart, List.nil_append, List.filter_eq_self]
    intro part hpart
    rcases List.mem_cons.mp hpart with rfl | hpart
    · simpa using hlt
    · have hstart := hafter part hpart
      have := (hall part.1 (List.mem_map_of_mem
        (List.mem_append_right _ (List.mem_cons_of_mem _ hpart)))).1
      simp only [decide_eq_true_eq]
      omega
  refine ⟨spliceFrom t s.stop after, ?_⟩
  unfold Text.splice
  rw [spliceFrom_eq_append hfits (Nat.zero_le _) hp, hbehind, spliceFrom, slice,
    Nat.sub_self, List.take_zero, List.nil_append, List.append_assoc]

/-- **What replaces a part** stands where the part lands. -/
theorem hasAt_splice_of_mem (hfits : t.Fits (parts.map (·.1))) {s : Span} {new : Text}
    (h : (s, new) ∈ parts) : (t.splice parts).HasAt (t.landing parts s.start) new := by
  obtain ⟨back, hback⟩ := exists_splice_eq_of_mem hfits h
  exact (hasAt_iff_append.mpr ⟨_, back, hback, rfl⟩).1

/-! ### Order -/

/-- Parts that end by some position are parts of the text in front of it. -/
theorem Fits.take (hfits : t.Fits (parts.map (·.1))) (q : Nat) :
    Fits (t.take q) ((parts.filter (·.1.stop ≤ q)).map (·.1)) := by
  refine ⟨hfits.1.sublist (List.filter_sublist.map _), fun s hs => ?_⟩
  obtain ⟨part, hpart, rfl⟩ := List.mem_map.mp hs
  obtain ⟨hmem, hq⟩ := List.mem_filter.mp hpart
  have hq : part.1.stop ≤ q := by simpa using hq
  have := hfits.2 part.1 (List.mem_map_of_mem hmem)
  rw [List.length_take]
  omega

theorem landing_take {p q : Nat} (hpq : p ≤ q) :
    landing (t.take q) (parts.filter (·.1.stop ≤ q)) p = t.landing parts p := by
  unfold landing
  rw [List.take_take, Nat.min_eq_left hpq, List.filter_filter]
  congr 2
  refine List.filter_congr fun part _ => ?_
  by_cases h : part.1.stop ≤ p
  · simp [h, Nat.le_trans h hpq]
  · simp [h]

/-- What stands in front of a position lands in front of it. -/
theorem landing_add_length_le (hfits : t.Fits (parts.map (·.1))) {p q : Nat} {piece : Text}
    (h : t.HasAt p piece) (hpiece : piece ≠ [])
    (hapart : ∀ part ∈ parts, part.1.Apart ⟨p, p + piece.length⟩) (hq : p + piece.length ≤ q) :
    t.landing parts p + piece.length ≤ t.landing parts q := by
  have hstands := (h.take hq).splice (hfits.take q) hpiece fun part hpart =>
    hapart part (List.mem_filter.mp hpart).1
  rw [landing_take (by omega)] at hstands
  exact hstands.length_le hpiece

/-- What replaces a part in front of a position lands in front of it. -/
theorem landing_add_new_length_le (hfits : t.Fits (parts.map (·.1))) {s : Span} {new : Text}
    (h : (s, new) ∈ parts) {q : Nat} (hq : s.stop ≤ q) :
    t.landing parts s.start + new.length ≤ t.landing parts q := by
  have hlt := (hfits.2 s (List.mem_map_of_mem h)).1
  obtain ⟨back, hback⟩ := exists_splice_eq_of_mem (hfits.take q)
    (List.mem_filter.mpr ⟨h, by simpa using hq⟩)
  have hlength := congrArg List.length hback
  rw [List.length_append, List.length_append] at hlength
  rw [← landing_take (by omega : s.start ≤ q)]
  unfold landing at *
  omega

end

end Text

end NotePress
