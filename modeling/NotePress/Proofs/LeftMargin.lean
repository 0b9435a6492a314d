import Mathlib.Data.List.Infix
import NotePress.Preamble
import NotePress.Proofs.Bytes
import NotePress.Proofs.Lists
import NotePress.Proofs.Trimming

/-!
# The left margin

A user's header is moved to the left by the margin of its lines: blanks that every line starts with
that says something (`Preamble.IsMargin`). The indentation that is taken away is the longest margin
(`Preamble.isMargin_iff`), so each of those lines opens with it, and what is left has none
(`Preamble.header_at_margin`).

On texts that are kept as bytes the indentation is found by cutting at offsets: where a line starts
without its blanks, and where two indentations part. Blanks take one to three bytes, so an offset
that is off by a little falls inside a character. No cut does
(`Preamble.cutSharedIndentation?_eq_some`).
-/

namespace NotePress

namespace Text

/-- The characters of a text, each with the offset that it starts at. -/
def charOffsets (start : Nat) : Text → List (Nat × Char)
  | [] => []
  | c :: rest => (start, c) :: charOffsets (start + c.utf8Size) rest

/-- The offset at which two texts part: where they differ, or where the shorter one ends. -/
def partingByte (a b : Text) : Nat :=
  (((charOffsets 0 a).zip b).find? fun p => p.1.2 != p.2).elim
    (min (byteLength a) (byteLength b)) fun p => p.1.1

end Text

namespace Preamble

open Text

variable {a b w line indent : Text} {lines : List Text} {c : Char}

/-! ### Shared beginnings -/

/-- What two texts share is the longest text that both start with. -/
theorem isPrefix_sharedStart_iff : w <+: sharedStart a b ↔ w <+: a ∧ w <+: b := by
  induction w generalizing a b with
  | nil => simp
  | cons c w ih =>
    cases a with
    | nil => simp [sharedStart]
    | cons d a =>
      cases b with
      | nil => simp [sharedStart]
      | cons e b =>
        unfold sharedStart
        split
        · rename_i hde
          rw [List.cons_prefix_cons, List.cons_prefix_cons, List.cons_prefix_cons, ih, ← hde]
          tauto
        · rename_i hde
          simp only [List.prefix_nil, reduceCtorEq, List.cons_prefix_cons, false_iff]
          rintro ⟨⟨rfl, -⟩, rfl, -⟩
          exact hde rfl

theorem isPrefix_foldl_sharedStart_iff {first : Text} {rest : List Text} :
    w <+: rest.foldl sharedStart first ↔ w <+: first ∧ ∀ t ∈ rest, w <+: t := by
  induction rest generalizing first with
  | nil => simp
  | cons next rest ih =>
    rw [List.foldl_cons, ih, isPrefix_sharedStart_iff, List.forall_mem_cons, and_assoc]

theorem isPrefix_indentation_iff :
    w <+: indentation line ↔ (∀ c ∈ w, isBlank c = true) ∧ w <+: line := by
  constructor
  · intro h
    exact ⟨fun c hc => List.mem_takeWhile_imp (h.subset hc), h.trans (List.takeWhile_prefix _)⟩
  · rintro ⟨hblank, rest, rfl⟩
    rw [indentation, List.takeWhile_append_of_pos hblank]
    exact List.prefix_append ..

/-! ### Margins -/

/-- **A margin of lines**: blanks that every line starts with that says something. -/
structure IsMargin (w : Text) (lines : List Text) : Prop where
  blank : ∀ c ∈ w, isBlank c = true
  opens : ∀ line ∈ lines, line.allBlank = false → w <+: line

/-- The indentation that is taken from lines is their longest margin. -/
theorem isMargin_iff (hline : line ∈ lines) (hshows : line.allBlank = false) :
    IsMargin w lines ↔ w <+: sharedIndentation lines := by
  have hmember : line ∈ lines.filter fun l => !l.allBlank :=
    List.mem_filter.mpr ⟨hline, by simp [hshows]⟩
  have heach : (∀ start ∈ (lines.filter fun l => !l.allBlank).map indentation, w <+: start) ↔
      IsMargin w lines := by
    rw [List.forall_mem_map]
    constructor
    · intro h
      refine ⟨(isPrefix_indentation_iff.mp (h _ hmember)).1, fun l hl hshows => ?_⟩
      exact (isPrefix_indentation_iff.mp (h l (List.mem_filter.mpr ⟨hl, by simp [hshows]⟩))).2
    · intro h l hl
      obtain ⟨hl, hshows⟩ := List.mem_filter.mp hl
      exact isPrefix_indentation_iff.mpr ⟨h.blank, h.opens l hl (by simpa using hshows)⟩
  rw [← heach]
  unfold sharedIndentation
  split
  · rename_i hnone
    rw [List.map_eq_nil_iff.mp hnone] at hmember
    cases hmember
  · rename_i first rest hstarts
    rw [hstarts, isPrefix_foldl_sharedStart_iff, List.forall_mem_cons]

theorem isMargin_sharedIndentation (lines : List Text) :
    IsMargin (sharedIndentation lines) lines := by
  by_cases hshows : ∃ line ∈ lines, line.allBlank = false
  · obtain ⟨line, hline, hshows⟩ := hshows
    exact (isMargin_iff hline hshows).mpr List.prefix_rfl
  · have hnone : lines.filter (fun l => !l.allBlank) = [] := by
      refine List.filter_eq_nil_iff.mpr fun l hl hl' => hshows ⟨l, hl, by simpa using hl'⟩
    have hempty : sharedIndentation lines = [] := by
      unfold sharedIndentation
      rw [hnone]
      rfl
    refine ⟨by simp [hempty], fun l hl hl' => absurd ⟨l, hl, hl'⟩ hshows⟩

/-! ### Lines at the margin -/

/-- A line that opens with blanks loses them, and the blanks at its end. -/
theorem exists_dedentLine (hshows : line.allBlank = false) (h : indent <+: line) :
    ∃ back, (∀ c ∈ back, isBlank c = true) ∧ line = indent ++ (dedentLine indent line ++ back) ∧
      dropOpening? indent line = some (dedentLine indent line ++ back) := by
  obtain ⟨rest, hrest⟩ := h
  have hdrop : dropOpening? indent line = some rest :=
    List.isPrefixOf?_eq_some_iff_append_eq.mpr hrest
  have hdedent : dedentLine indent line = trimEnd rest := by
    unfold dedentLine
    rw [hshows, if_neg Bool.false_ne_true, hdrop]
    rfl
  obtain ⟨back, hsplit, hback, -⟩ := dropTail_eq_iff.mp hdedent.symm
  refine ⟨back, hback, ?_, ?_⟩
  · rw [← hsplit, hrest]
  · rw [← hsplit, hdrop]

/-- Only blanks are taken from a line that is moved to the margin. -/
theorem trim_dedentLine (hindent : ∀ c ∈ indent, isBlank c = true) (line : Text) :
    (dedentLine indent line).trim = line.trim := by
  have hend : ∀ u : Text, u.trimEnd.trim = u.trim := by
    intro u
    obtain ⟨back, hsplit, hback, -⟩ := dropTail_eq_iff.mp (rfl : dropTail isBlank u = u.trimEnd)
    conv_rhs => rw [hsplit]
    exact (trim_append_right hback _).symm
  unfold dedentLine
  split
  · rename_i hblank
    rw [trim_eq_nil_iff.mpr hblank]
    rfl
  · rw [hend]
    cases hrest : dropOpening? indent line with
    | none => rfl
    | some rest =>
      have hline : indent ++ rest = line := List.isPrefixOf?_eq_some_iff_append_eq.mp hrest
      rw [Option.getD_some, ← hline, trim_append_left hindent]

theorem allBlank_dedentLine (hindent : ∀ c ∈ indent, isBlank c = true) (line : Text) :
    (dedentLine indent line).allBlank = line.allBlank := by
  rw [Bool.eq_iff_iff, ← trim_eq_nil_iff, ← trim_eq_nil_iff, trim_dedentLine hindent]

/-- What lines still share at the margin would have been a part of their margin. -/
theorem isMargin_dedent (h : IsMargin w (dedent lines)) :
    IsMargin (sharedIndentation lines ++ w) lines := by
  have hmargin := isMargin_sharedIndentation lines
  refine ⟨List.forall_mem_append.mpr ⟨hmargin.blank, h.blank⟩, fun line hline hshows => ?_⟩
  obtain ⟨back, -, hsplit, -⟩ := exists_dedentLine hshows (hmargin.opens line hline hshows)
  have hopens := h.opens _ (List.mem_map_of_mem hline)
    ((allBlank_dedentLine hmargin.blank line).trans hshows)
  rw [hsplit]
  exact (List.prefix_append_right_inj _).mpr (hopens.trans (List.prefix_append ..))

/-! ### Cuts at byte offsets -/

/-- Cuts the indentation from a line, at the offset that follows from what is left. -/
def cutIndentation? (line : Text) : Option (Text × Text) :=
  line.cutAtByte? (byteLength line - byteLength line.trimStart)

/-- Cuts a text where another parts from it. -/
def cutSharedStart? (a b : Text) : Option Text := (a.cutAtByte? (partingByte a b)).map Prod.fst

/-- The indentation that lines share, by cuts at byte offsets. -/
def cutSharedIndentation? (lines : List Text) : Option Text := do
  let starts ← (lines.filter fun l => !l.allBlank).mapM fun l => (cutIndentation? l).map Prod.fst
  match starts with
  | [] => some []
  | first :: rest => rest.foldlM cutSharedStart? first

theorem cutIndentation?_eq_some (line : Text) :
    cutIndentation? line = some (indentation line, line.trimStart) := by
  have hsplit : line = indentation line ++ line.trimStart :=
    List.takeWhile_append_dropWhile.symm
  refine cutAtByte?_eq_some_iff.mpr ⟨hsplit, ?_⟩
  have hlength := congrArg byteLength hsplit
  rw [byteLength_append] at hlength
  omega

/-- Texts part at the byte where what they share ends. -/
theorem partingByte_eq (a b : Text) : partingByte a b = byteLength (sharedStart a b) := by
  -- The offsets count on from what is in front, so the induction is about any start.
  have hfrom : ∀ (a b : Text) (start : Nat),
      (((charOffsets start a).zip b).find? fun p => p.1.2 != p.2).elim
        (min (start + byteLength a) (start + byteLength b)) (fun p => p.1.1) =
          start + byteLength (sharedStart a b) := by
    intro a
    induction a with
    | nil => simp [charOffsets, sharedStart]
    | cons c a ih =>
      intro b start
      cases b with
      | nil => simp [charOffsets, sharedStart]
      | cons d b =>
        unfold charOffsets sharedStart
        rw [List.zip_cons_cons]
        by_cases hcd : c = d
        · subst hcd
          rw [List.find?_cons_of_neg (by simp), if_pos rfl, byteLength_cons, byteLength_cons,
            byteLength_cons, ← Nat.add_assoc, ← Nat.add_assoc, ← Nat.add_assoc]
          exact ih b _
        · rw [List.find?_cons_of_pos (by simpa using hcd), if_neg hcd]
          rfl
  have h := hfrom a b 0
  rw [Nat.zero_add, Nat.zero_add, Nat.zero_add] at h
  exact h

theorem cutSharedStart?_eq_some (a b : Text) : cutSharedStart? a b = some (sharedStart a b) := by
  obtain ⟨rest, hrest⟩ := (isPrefix_sharedStart_iff.mp (List.prefix_refl (sharedStart a b))).1
  have hcut : a.cutAtByte? (partingByte a b) = some (sharedStart a b, rest) :=
    cutAtByte?_eq_some_iff.mpr ⟨hrest.symm, (partingByte_eq a b).symm⟩
  rw [cutSharedStart?, hcut]
  rfl

/-- Cuts at byte offsets find the indentation that lines share, and none is inside a character. -/
theorem cutSharedIndentation?_eq_some (lines : List Text) :
    cutSharedIndentation? lines = some (sharedIndentation lines) := by
  have hstarts : (lines.filter fun l => !l.allBlank).mapM (fun l =>
      (cutIndentation? l).map Prod.fst) =
        some ((lines.filter fun l => !l.allBlank).map indentation) :=
    mapM_eq_some_map fun l _ => by rw [cutIndentation?_eq_some, Option.map_some]
  have hshare : cutSharedStart? = fun a b => some (sharedStart a b) :=
    funext₂ cutSharedStart?_eq_some
  unfold cutSharedIndentation? sharedIndentation
  rw [hstarts, hshare]
  cases (lines.filter fun l => !l.allBlank).map indentation with
  | nil => rfl
  | cons first rest => exact List.foldlM_pure

/-! ### The header -/

/-- The lines of a header that are kept, without item marks. -/
def keptLines (header : Text) : List Text :=
  ((header.lines.map (·.content)).filter fun l => !isScaffolding l).map dropItemMark

/-- **A header is moved to the left by its longest margin.** Of what is kept of any header, the
lines that say something all open with the indentation that is taken away, so that this always
succeeds and takes that and blanks at the end from each of them; cuts at byte offsets find the same
indentation without falling inside a character. It is a margin, each other margin is a beginning of
it, and afterwards there is none but the empty one. -/
theorem header_at_margin (header : Text) :
    let kept := keptLines header
    let indent := sharedIndentation kept
    headerLines header = kept.map (dedentLine indent) ∧
      cutSharedIndentation? kept = some indent ∧
      (∀ line ∈ kept, (dedentLine indent line).trim = line.trim) ∧
      (∀ line ∈ kept, line.allBlank = false → ∃ back, (∀ c ∈ back, isBlank c = true) ∧
        line = indent ++ (dedentLine indent line ++ back) ∧
        dropOpening? indent line = some (dedentLine indent line ++ back)) ∧
      IsMargin indent kept ∧
      ((∃ line ∈ kept, line.allBlank = false) →
        (∀ w, IsMargin w kept → w <+: indent) ∧
        ∀ w, IsMargin w (headerLines header) → w = []) := by
  intro kept indent
  have hmargin : IsMargin indent kept := isMargin_sharedIndentation kept
  refine ⟨rfl, cutSharedIndentation?_eq_some kept, ?_, ?_, hmargin, ?_⟩
  · exact fun line _ => trim_dedentLine hmargin.blank line
  · exact fun line hline hshows => exists_dedentLine hshows (hmargin.opens line hline hshows)
  · rintro ⟨line, hline, hshows⟩
    refine ⟨fun w => (isMargin_iff hline hshows).mp, fun w hw => ?_⟩
    have hlonger : indent ++ w <+: indent := (isMargin_iff hline hshows).mp (isMargin_dedent hw)
    have hlength := hlonger.length_le
    rw [List.length_append] at hlength
    exact List.length_eq_zero_iff.mp (by omega)

/-- Blanks of different widths are compared as characters. -/
example : headerLines "\u3000\u3000a\n\u3000\u3000\u3000b".toList =
    ["a".toList, "\u3000b".toList] ∧
    headerLines "\u00a0a\n b".toList = ["\u00a0a".toList, " b".toList] := by
  decide

end Preamble

end NotePress
