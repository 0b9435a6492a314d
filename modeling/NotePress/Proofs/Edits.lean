import NotePress.Proofs.Bytes
import NotePress.Proofs.FenceBodies

/-!
# Texts that are edited in place

`Text.Edited` says what it means that parts of a text are replaced in place: from left to right some
text is copied, a part is replaced, and so on, and the rest is copied. Nothing is lost, nothing comes
twice. It does not mention how a text is spliced; `Text.edited_iff` says that splicing does just
this, with every list of parts that are in order and apart.

Positions count characters. `Span.onBoundaries` says what a part is in bytes: cut out of the bytes of
the text it gives whole characters.
-/

namespace NotePress

namespace Text

/-- A text that starts at a position, some parts with what replaces them, and the text that comes of
it. -/
inductive Edited : Nat → Text → List (Span × Text) → Text → Prop where
  /-- What is behind all parts is copied. -/
  | rest {pos : Nat} {t : Text} : Edited pos t [] t
  /-- What is in front of a part is copied, and the part is replaced. -/
  | part {pos : Nat} {s : Span} {kept old new t out : Text} {parts : List (Span × Text)}
      (hstart : s.start = pos + kept.length) (hstop : s.stop = s.start + old.length)
      (rest : Edited s.stop t parts out) :
      Edited pos (kept ++ (old ++ t)) ((s, new) :: parts) (kept ++ (new ++ out))

variable {t out : Text} {parts : List (Span × Text)} {pos : Nat}

theorem length_slice {a b : Nat} (hb : b ≤ t.length) : (t.slice a b).length = b - a := by
  rw [slice, List.length_take, List.length_drop]
  omega

theorem edited_spliceFrom (hfits : t.Fits (parts.map (·.1)))
    (hpos : ∀ part ∈ parts, pos ≤ part.1.start) :
    Edited pos (t.drop pos) parts (spliceFrom t pos parts) := by
  induction parts generalizing pos with
  | nil => exact .rest
  | cons part rest ih =>
    obtain ⟨s, new⟩ := part
    obtain ⟨horder, hall⟩ := hfits
    rw [List.map_cons, List.pairwise_cons] at horder
    obtain ⟨hlt, hle⟩ := hall s (List.mem_cons_self ..)
    have hstart : pos ≤ s.start := hpos _ (List.mem_cons_self ..)
    have hrest := @ih s.stop ⟨horder.2, fun other h => hall other (List.mem_cons_of_mem _ h)⟩
      fun other h => horder.1 _ (List.mem_map_of_mem h)
    rw [spliceFrom, List.append_assoc, ← slice_append_drop t hstart,
      ← slice_append_drop t (Nat.le_of_lt hlt)]
    refine .part ?_ ?_ hrest
    · rw [length_slice (by omega)]
      omega
    · rw [length_slice hle]
      omega

/-- There is one way to edit. -/
theorem Edited.unique {out' : Text} (h : Edited pos t parts out) (h' : Edited pos t parts out') :
    out = out' := by
  induction h generalizing out' with
  | rest =>
    cases h'
    rfl
  | @part pos s kept old new t out parts hstart hstop _ ih =>
    generalize hwhole : kept ++ (old ++ t) = whole at h'
    cases h' with
    | @part _ _ kept' old' _ t' out' _ hstart' hstop' rest' =>
      obtain ⟨rfl, htail⟩ := List.append_inj hwhole (by omega)
      obtain ⟨rfl, rfl⟩ := List.append_inj htail (by omega)
      rw [ih rest']

/-- **Splicing is editing in place.** -/
theorem edited_iff (hfits : t.Fits (parts.map (·.1))) :
    Edited 0 t parts out ↔ out = t.splice parts := by
  have hspliced : Edited 0 t parts (t.splice parts) :=
    edited_spliceFrom hfits fun _ _ => Nat.zero_le _
  constructor
  · intro h
    exact h.unique hspliced
  · rintro rfl
    exact hspliced

/-- A part that keeps its own text need not be replaced. -/
theorem spliceFrom_filterMap {α : Type} {as : List α} {span : α → Span} {new : α → Option Text}
    (hfits : t.Fits (as.map span)) (hpos : ∀ a ∈ as, pos ≤ (span a).start) :
    spliceFrom t pos (as.filterMap fun a => (new a).map (span a, ·)) =
      spliceFrom t pos
        (as.map fun a => (span a, (new a).getD (t.slice (span a).start (span a).stop))) := by
  induction as generalizing pos with
  | nil => rfl
  | cons a rest ih =>
    obtain ⟨horder, hall⟩ := hfits
    rw [List.map_cons, List.pairwise_cons] at horder
    have hlt := (hall (span a) (List.mem_cons_self ..)).1
    have hstart := hpos a (List.mem_cons_self ..)
    have hlater : ∀ b ∈ rest, (span a).stop ≤ (span b).start :=
      fun b hb => horder.1 _ (List.mem_map_of_mem hb)
    have hrest : t.Fits (rest.map span) :=
      ⟨horder.2, fun s hs => hall s (List.mem_cons_of_mem _ hs)⟩
    rw [List.map_cons, spliceFrom]
    cases hnew : new a with
    | some text =>
      rw [List.filterMap_cons_some (by rw [hnew]; rfl), spliceFrom, ih hrest hlater]
      rfl
    | none =>
      rw [List.filterMap_cons_none (by rw [hnew]; rfl), Option.getD_none,
        slice_append_slice t hstart (Nat.le_of_lt hlt),
        ← ih hrest hlater]
      refine spliceFrom_eq_slice_append (by omega) fun part hpart => ?_
      obtain ⟨b, hb, hpart⟩ := List.mem_filterMap.mp hpart
      obtain ⟨_, -, rfl⟩ := Option.map_eq_some_iff.mp hpart
      exact hlater b hb

theorem splice_filterMap {α : Type} {as : List α} {span : α → Span} {new : α → Option Text}
    (hfits : t.Fits (as.map span)) :
    t.splice (as.filterMap fun a => (new a).map (span a, ·)) =
      t.splice (as.map fun a => (span a, (new a).getD (t.slice (span a).start (span a).stop))) :=
  spliceFrom_filterMap hfits fun _ _ => Nat.zero_le _

/-- What stands at places in order occurs in order. -/
theorem occurInOrder_of_hasAt {places : List (Nat × Text)}
    (hstand : ∀ p ∈ places, t.HasAt p.1 p.2)
    (horder : places.Pairwise fun p q => p.1 + p.2.length ≤ q.1) {pos : Nat}
    (hpos : ∀ p ∈ places, pos ≤ p.1) : OccurInOrder (places.map (·.2)) (t.drop pos) := by
  induction places generalizing pos with
  | nil => trivial
  | cons p rest ih =>
    obtain ⟨hlater, hrest⟩ := List.pairwise_cons.mp horder
    refine ⟨t.slice pos p.1, t.drop (p.1 + p.2.length), ?_,
      ih (fun q hq => hstand q (List.mem_cons_of_mem _ hq)) hrest hlater⟩
    rw [← slice_append_drop t (hpos p (List.mem_cons_self ..)),
      ← slice_append_drop t (Nat.le_add_right p.1 p.2.length),
      (hstand p (List.mem_cons_self ..)).slice_eq, List.append_assoc]

theorem hasAt_slice (t : Text) (a b : Nat) : t.HasAt a (t.slice a b) := List.take_prefix _ _

/-- **Parts that no replaced part meets** occur in the new text, in order. -/
theorem occurInOrder_splice (hfits : t.Fits (parts.map (·.1))) {spans : List Span}
    (hspans : t.Fits spans) (hapart : ∀ s ∈ spans, ∀ part ∈ parts, part.1.Apart s) :
    OccurInOrder (spans.map fun s => t.slice s.start s.stop) (t.splice parts) := by
  have hlength : ∀ s ∈ spans, s.start + (t.slice s.start s.stop).length = s.stop ∧
      t.slice s.start s.stop ≠ [] := by
    intro s hs
    obtain ⟨hlt, hle⟩ := hspans.2 s hs
    rw [← List.length_pos_iff, length_slice hle]
    omega
  have hapart' : ∀ s ∈ spans, ∀ part ∈ parts,
      part.1.Apart ⟨s.start, s.start + (t.slice s.start s.stop).length⟩ := by
    intro s hs
    rw [(hlength s hs).1]
    exact hapart s hs
  have hplaces := @occurInOrder_of_hasAt (t.splice parts)
    (spans.map fun s => (t.landing parts s.start, t.slice s.start s.stop)) ?_ ?_ 0
    fun _ _ => Nat.zero_le _
  · rwa [List.map_map] at hplaces
  · intro p hp
    obtain ⟨s, hs, rfl⟩ := List.mem_map.mp hp
    exact (hasAt_slice t s.start s.stop).splice hfits (hlength s hs).2 (hapart' s hs)
  · rw [List.pairwise_map]
    refine hspans.1.imp_of_mem fun {s s'} hs _ hle => ?_
    exact landing_add_length_le hfits (hasAt_slice t s.start s.stop) (hlength s hs).2
      (hapart' s hs) (Nat.le_trans (Nat.le_of_eq (hlength s hs).1) hle)

end Text

/-! ### Bytes -/

/-- A part of a text lies on character boundaries: its bytes are in bounds, and they are those of
whole characters. -/
structure Span.OnBoundaries (t : Text) (s : Span) : Prop where
  le : (s.bytes t).start ≤ (s.bytes t).stop
  inBounds : (s.bytes t).stop ≤ t.encode.length
  bytes_eq : (t.encode.take (s.bytes t).stop).drop (s.bytes t).start =
    Text.encode (t.slice s.start s.stop)

/-- Parts in bounds lie on character boundaries. -/
theorem Span.onBoundaries {t : Text} {s : Span} (hle : s.start ≤ s.stop) : s.OnBoundaries t := by
  have hfront : t.take s.stop = t.take s.start ++ t.slice s.start s.stop := by
    rw [Text.slice, ← List.take_add, Nat.add_sub_cancel' hle]
  have hbytes : Text.byteLength (t.take s.stop) =
      Text.byteLength (t.take s.start) + Text.byteLength (t.slice s.start s.stop) := by
    rw [hfront, Text.byteLength_append]
  have hwhole : t.encode = Text.encode (t.take s.stop) ++ Text.encode (t.drop s.stop) := by
    rw [← Text.encode_append, List.take_append_drop]
  refine ⟨?_, ?_, ?_⟩
  · show Text.byteLength (t.take s.start) ≤ Text.byteLength (t.take s.stop)
    rw [hbytes]
    exact Nat.le_add_right _ _
  · show Text.byteLength (t.take s.stop) ≤ _
    rw [hwhole, List.length_append, Text.length_encode]
    exact Nat.le_add_right _ _
  · show (t.encode.take (Text.byteLength (t.take s.stop))).drop
      (Text.byteLength (t.take s.start)) = _
    rw [hwhole, ← Text.length_encode, ← Text.length_encode, List.take_left, hfront,
      Text.encode_append, List.drop_left]

end NotePress
