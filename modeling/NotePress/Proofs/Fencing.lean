import Mathlib.Data.List.Pairwise
import NotePress.Proofs.Lines
import NotePress.Proofs.Scanning

/-!
# Where fences stand

Lines are laid through a text one behind the other (`Laid`), and a fence is made of whole lines.
What is inside a fence is its body together with the line break in front of it, `Fence.inside`;
there is such a break even if the body is empty, so the inside is never empty. Fences are apart, and
no embed or image starts in front of a fence and reaches into it, or starts where a fence does.
-/

namespace NotePress

/-- Lines one behind the other, from a position on. -/
inductive Laid (t : Text) : Nat → List Line → Prop where
  | nil {pos : Nat} : Laid t pos []
  | last {pos : Nat} {content : Text} (hcontent : t.drop pos = content)
      (hbreak : '\n' ∉ content) : Laid t pos [⟨pos, content⟩]
  | more {pos : Nat} {piece content : Text} {rest : List Line}
      (hpiece : t.drop pos = piece ++ '\n' :: t.drop (pos + piece.length + 1))
      (hbreak : '\n' ∉ piece) (hcontent : content <+: piece)
      (hrest : Laid t (pos + piece.length + 1) rest) : Laid t pos (⟨pos, content⟩ :: rest)

theorem Text.LinedFrom.laid {t : Text} {pos : Nat} {lines : List Line}
    (h : t.LinedFrom pos lines) : Laid t pos lines := by
  induction h with
  | done => exact .nil
  | last h _ hfree => exact .last h hfree
  | @line pos content brk lines h hfree hbreak _ ih =>
    cases hbreak with
    | lineFeed => exact .more h hfree List.prefix_rfl ih
    | carriageReturn =>
      have hlength : pos + (content ++ ['\r']).length + 1 =
          pos + content.length + ['\r', '\n'].length := by
        simp
        omega
      have hpiece : t.drop pos = content ++ ['\r'] ++
          '\n' :: t.drop (pos + (content ++ ['\r']).length + 1) := by
        rw [hlength, h]
        simp
      exact .more hpiece (by simp [hfree]) (List.prefix_append _ _) (by rwa [hlength])

theorem Text.laid_lines (t : Text) : Laid t 0 t.lines := t.linedFrom_lines.laid

namespace Laid

variable {t : Text} {pos : Nat} {lines : List Line}

theorem start_eq {l : Line} {rest : List Line} (h : Laid t pos (l :: rest)) : l.start = pos := by
  cases h <;> rfl

theorem le_start (h : Laid t pos lines) {l : Line} (hl : l ∈ lines) : pos ≤ l.start := by
  induction h with
  | nil => cases hl
  | last => rw [List.mem_singleton.mp hl]
  | more _ _ _ _ ih =>
    rcases List.mem_cons.mp hl with rfl | hl
    · exact Nat.le_refl _
    · have := ih hl
      omega

/-- A line stands in the text, and behind a line break unless it is the first one. -/
theorem of_mem (h : Laid t pos lines) {l : Line} (hl : l ∈ lines) :
    t.HasAt l.start l.content ∧ '\n' ∉ l.content ∧
      (l.start = pos ∨ 0 < l.start ∧ t[l.start - 1]? = some '\n') := by
  induction h with
  | nil => cases hl
  | last hcontent hbreak =>
    rw [List.mem_singleton.mp hl]
    exact ⟨⟨[], by rw [List.append_nil, hcontent]⟩, hbreak, .inl rfl⟩
  | @more pos piece content rest hpiece hbreak hcontent _ ih =>
    rcases List.mem_cons.mp hl with rfl | hl
    · refine ⟨hcontent.trans ⟨_, hpiece.symm⟩, fun hmem => hbreak (hcontent.subset hmem), .inl rfl⟩
    · obtain ⟨hstands, hfree, hopens⟩ := ih hl
      refine ⟨hstands, hfree, .inr ?_⟩
      rcases hopens with hstart | hopens
      · refine ⟨by omega, ?_⟩
        rw [hstart, show pos + piece.length + 1 - 1 = pos + piece.length by omega,
          ← List.getElem?_drop, hpiece, List.getElem?_append_right (Nat.le_refl _), Nat.sub_self]
        rfl
      · exact hopens

theorem append_right {before : List Line} (h : Laid t pos (before ++ lines)) :
    ∃ pos', Laid t pos' lines := by
  induction before generalizing pos with
  | nil => exact ⟨pos, h⟩
  | cons l rest ih =>
    rw [List.cons_append] at h
    generalize hbehind : rest ++ lines = behind at h
    cases h with
    | last _ _ =>
      obtain ⟨rfl, rfl⟩ := List.append_eq_nil_iff.mp hbehind
      exact ⟨pos, .nil⟩
    | more _ _ _ hrest =>
      subst hbehind
      exact ih hrest

/-- What follows on a line with another line behind it. -/
theorem next {l next : Line} {rest : List Line} (h : Laid t pos (l :: next :: rest)) :
    ∃ piece, t.drop l.start = piece ++ '\n' :: t.drop next.start ∧ '\n' ∉ piece ∧
      next.start = l.start + piece.length + 1 ∧ l.stop < next.start := by
  cases h with
  | @more _ piece content _ hpiece hbreak hcontent hrest =>
    refine ⟨piece, ?_, hbreak, hrest.start_eq, ?_⟩
    · rw [hrest.start_eq]
      exact hpiece
    · have := hcontent.length_le
      rw [hrest.start_eq]
      show pos + content.length < _
      omega

/-- No line behind the first one starts in front of the next one. -/
theorem next_le {l next l' : Line} {rest : List Line} (h : Laid t pos (l :: next :: rest))
    (hl : l' ∈ next :: rest) : next.start ≤ l'.start := by
  cases h with
  | more _ _ _ hrest =>
    rw [hrest.start_eq]
    exact hrest.le_start hl

theorem pairwise (h : Laid t pos lines) : lines.Pairwise fun a b => a.stop < b.start := by
  induction h with
  | nil => exact .nil
  | last => exact List.pairwise_singleton _ _
  | more _ _ hcontent hrest ih =>
    refine .cons (fun l hl => ?_) ih
    have hbehind := hrest.le_start hl
    have := hcontent.length_le
    simp only [Line.stop]
    omega

end Laid

/-! ### Fences -/

/-- What is inside a fence: its body, with the line break in front of it. -/
def Fence.inside (t : Text) (f : Fence) : Span :=
  let start := f.span.start + (t.drop f.span.start).idxOf '\n'
  ⟨start, start + ('\n' :: f.body).length⟩

/-- A fence is made of an opening line, the lines of its body and a closing line. -/
structure Fence.MadeOf (t : Text) (f : Fence) (opening : Line) (inner : List Line)
    (closing : Line) : Prop where
  span : f.span = ⟨opening.start, closing.stop⟩
  body : f.body = t.cover inner
  opens : (FenceLine.read? opening.content).isSome
  closes : (FenceLine.read? closing.content).isSome

theorem exists_madeOf_of_mem_fencesFrom {t : Text} {skip : Nat} {lines : List Line} {f : Fence}
    (h : f ∈ fencesFrom t skip lines) :
    ∃ before opening inner closing after,
      lines = before ++ opening :: (inner ++ closing :: after) ∧
        skip ≤ before.length ∧ f.MadeOf t opening inner closing := by
  induction lines generalizing skip with
  | nil => cases skip <;> cases h
  | cons line rest ih =>
    have hbehind : ∀ {skip' : Nat}, f ∈ fencesFrom t skip' rest → skip ≤ skip' + 1 →
        ∃ before opening inner closing after,
          line :: rest = before ++ opening :: (inner ++ closing :: after) ∧
            skip ≤ before.length ∧ f.MadeOf t opening inner closing := by
      intro skip' h hskip
      obtain ⟨before, opening, inner, closing, after, rfl, hlength, hmade⟩ := ih h
      exact ⟨line :: before, opening, inner, closing, after, rfl,
        by rw [List.length_cons]; omega, hmade⟩
    cases skip with
    | succ skip => exact hbehind h (Nat.le_refl _)
    | zero =>
      rw [fencesFrom] at h
      split at h
      · exact hbehind h (Nat.zero_le _)
      · rename_i o ho
        split at h
        · exact hbehind h (Nat.zero_le _)
        · rename_i j hj
          rcases List.mem_cons.mp h with rfl | h
          · obtain ⟨hlt, hcloses, -⟩ := List.findIdx?_eq_some_iff_getElem.mp hj
            have ho := (Option.filter_eq_some_iff.mp ho).1
            refine ⟨[], line, rest.take j, rest[j], rest.drop (j + 1), ?_, Nat.le_refl _, ?_⟩
            · rw [List.nil_append, List.getElem_cons_drop, List.take_append_drop]
            · refine ⟨?_, rfl, by rw [ho]; rfl, ?_⟩
              · simp only [List.getElem?_eq_getElem hlt, Option.map_some, Option.getD_some]
              · unfold FenceLine.closedBy at hcloses
                split at hcloses
                · rename_i hread
                  rw [hread]
                  rfl
                · cases hcloses
          · exact hbehind h (Nat.zero_le _)

/-- A fence line begins with marks behind blanks and quote marks. -/
theorem FenceLine.exists_marks {line : Text} (h : (FenceLine.read? line).isSome) :
    ∃ quote c rest, line = quote ++ c :: rest ∧ (∀ x ∈ quote, isQuoteChar x = true) ∧
      (c = '\x60' ∨ c = '~') := by
  unfold FenceLine.read? at h
  simp only at h
  split at h
  · cases h
  · rename_i c rest hrest
    obtain ⟨hsplit, hall⟩ := eq_append_of_takeWhile rfl hrest
    split at h
    · rename_i hmarks
      exact ⟨_, c, rest, hsplit, hall, hmarks.1⟩
    · cases h

/-- Where a fence stands in a text, and where its inside does. -/
structure Fence.Stands (t : Text) (f : Fence) : Prop where
  inside : t.HasAt (f.inside t).start ('\n' :: f.body)
  start_lt : f.span.start < (f.inside t).start
  stop_le : (f.inside t).stop ≤ f.span.stop
  stop_le_length : f.span.stop ≤ t.length
  /-- It starts a line. -/
  opens : f.span.start = 0 ∨ 0 < f.span.start ∧ t[f.span.start - 1]? = some '\n'
  marks : ∃ quote c rest, t.drop f.span.start = quote ++ c :: rest ∧
    (∀ x ∈ quote, isQuoteChar x = true) ∧ (c = '\x60' ∨ c = '~')

theorem Fence.Stands.lt {t : Text} {f : Fence} (h : f.Stands t) : f.span.start < f.span.stop :=
  Nat.lt_of_lt_of_le h.start_lt (Nat.le_trans (Nat.le_add_right _ _) h.stop_le)

/-- The lines of a body cover no more than what is between the lines around them. -/
theorem Text.cover_length_le {t : Text} {first last : Nat} {lines : List Line}
    (hall : ∀ l ∈ lines, first ≤ l.start ∧ l.stop ≤ last) (hle : first ≤ last) :
    first + (t.cover lines).length ≤ last := by
  unfold cover
  split
  · rename_i start stop hstart hstop
    have hfirst := (hall start (List.mem_of_head? hstart)).1
    have hlast := (hall stop (List.mem_of_getLast? hstop)).2
    unfold slice
    rw [List.length_take, List.length_drop]
    omega
  · simpa using hle

/-- What some lines cover stands where the first of them starts. -/
theorem Text.hasAt_cover {t : Text} {p : Nat} {lines : List Line}
    (h : ∀ first, lines.head? = some first → first.start = p) : t.HasAt p (t.cover lines) := by
  unfold cover
  split
  · rename_i first last hfirst hlast
    rw [h first hfirst]
    exact List.take_prefix _ _
  · exact List.nil_prefix

theorem Fence.MadeOf.stands {t : Text} {f : Fence} {before inner after : List Line}
    {opening closing : Line} (hmade : f.MadeOf t opening inner closing)
    (hlaid : Laid t 0 (before ++ opening :: (inner ++ closing :: after))) : f.Stands t := by
  obtain ⟨hopening, -, hopens⟩ := hlaid.of_mem (l := opening) (by simp)
  obtain ⟨hclosing, -, -⟩ := hlaid.of_mem (l := closing) (by simp)
  obtain ⟨pos, hlaid⟩ := hlaid.append_right
  obtain ⟨quote, c, rest, hcontent, hquote, hc⟩ := FenceLine.exists_marks hmade.opens
  obtain ⟨quote', c', rest', hcontent', -, -⟩ := FenceLine.exists_marks hmade.closes
  -- The opening line ends at a line break, and the next line starts behind it.
  obtain ⟨next, later, hnext⟩ : ∃ next later, inner ++ closing :: after = next :: later := by
    cases inner <;> exact ⟨_, _, rfl⟩
  have hlaid' := hlaid
  rw [hnext] at hlaid'
  obtain ⟨piece, hpiece, hfree, hstart, hstop⟩ := hlaid'.next
  have hinside : (f.inside t).start = opening.start + piece.length := by
    unfold inside
    rw [hmade.span, hpiece, List.idxOf_append, if_neg hfree, List.idxOf_cons_self,
      Nat.zero_add]
  have hdrop : t.drop (f.inside t).start = '\n' :: t.drop next.start := by
    rw [hinside, ← List.drop_drop, hpiece, List.drop_left]
  have hinsideStop : (f.inside t).stop = (f.inside t).start + (f.body.length + 1) := rfl
  -- The lines of the body are between the next line's start and the closing line.
  have hbetween : ∀ l ∈ inner, next.start ≤ l.start ∧ l.stop ≤ closing.start := by
    intro l hl
    have hpairwise := (List.pairwise_cons.mp hlaid.pairwise).2
    have hlt := (List.pairwise_append.mp hpairwise).2.2 l hl closing (List.mem_cons_self ..)
    exact ⟨hlaid'.next_le (hnext ▸ List.mem_append_left _ hl), Nat.le_of_lt hlt⟩
  have hclosingStart : next.start ≤ closing.start := hlaid'.next_le (hnext ▸ by simp)
  have hbody := Text.cover_length_le (t := t) hbetween hclosingStart
  rw [← hmade.body] at hbody
  have hspan := hmade.span
  refine ⟨?_, ?_, ?_, ?_, ?_, ?_⟩
  · unfold Text.HasAt
    rw [hdrop, hmade.body]
    refine List.cons_prefix_cons.mpr ⟨rfl, Text.hasAt_cover fun first hfirst => ?_⟩
    cases inner with
    | nil => cases hfirst
    | cons head inner =>
      cases hfirst
      rw [(List.cons.inj hnext).1]
  · have hlength := congrArg List.length hcontent
    rw [List.length_append, List.length_cons] at hlength
    have hlt : opening.start + opening.content.length < next.start := hstop
    rw [hinside, hspan]
    show opening.start < _
    omega
  · rw [hinsideStop, hinside, hspan]
    show _ ≤ closing.start + closing.content.length
    omega
  · rw [hspan]
    refine hclosing.length_le (fun hnil => ?_)
    rw [hnil] at hcontent'
    simp at hcontent'
  · rw [hspan]
    exact hopens
  · rw [hspan]
    obtain ⟨back, hback⟩ := hopening
    exact ⟨quote, c, rest ++ back, by rw [← hback, hcontent]; simp, hquote, hc⟩

/-- **Every fence stands** in its text. -/
theorem Text.stands_of_mem_fences {t : Text} {f : Fence} (h : f ∈ t.fences) : f.Stands t := by
  obtain ⟨before, opening, inner, closing, after, hlines, -, hmade⟩ :=
    exists_madeOf_of_mem_fencesFrom h
  exact hmade.stands (hlines ▸ t.laid_lines)

/-- Fences come in order and apart. -/
theorem fencesFrom_pairwise {t : Text} {skip pos : Nat} {lines : List Line}
    (h : Laid t pos lines) :
    (fencesFrom t skip lines).Pairwise fun a b => a.span.stop < b.span.start := by
  induction lines generalizing skip pos with
  | nil => cases skip <;> exact .nil
  | cons line rest ih =>
    obtain ⟨pos', hrest⟩ := @Laid.append_right t pos rest [line] h
    cases skip with
    | succ skip => exact ih hrest
    | zero =>
      rw [fencesFrom]
      split
      · exact ih hrest
      · split
        · exact ih hrest
        · rename_i j hj
          refine .cons (fun f hf => ?_) (ih hrest)
          obtain ⟨before, opening, inner, closing, after, rfl, hlength, hmade⟩ :=
            exists_madeOf_of_mem_fencesFrom hf
          have hlt := (List.findIdx?_eq_some_iff_getElem.mp hj).1
          have hmem : (before ++ opening :: (inner ++ closing :: after))[j] ∈ before := by
            rw [List.getElem_append_left (by omega)]
            exact List.getElem_mem _
          have hpairwise := (List.pairwise_append.mp hrest.pairwise).2.2 _ hmem opening
            (List.mem_cons_self ..)
          rw [hmade.span]
          simpa only [List.getElem?_eq_getElem hlt, Option.map_some, Option.getD_some] using
            hpairwise

theorem Text.fences_pairwise (t : Text) :
    t.fences.Pairwise fun a b => a.span.stop < b.span.start :=
  fencesFrom_pairwise t.laid_lines

theorem Text.fences_fits (t : Text) : t.Fits (t.fences.map (·.span)) := by
  refine ⟨List.pairwise_map.mpr (t.fences_pairwise.imp Nat.le_of_lt), fun s hs => ?_⟩
  obtain ⟨f, hf, rfl⟩ := List.mem_map.mp hs
  exact ⟨(stands_of_mem_fences hf).lt, (stands_of_mem_fences hf).stop_le_length⟩

/-- Two fences that meet are the same. -/
theorem Text.eq_of_fences_meet {t : Text} {f f' : Fence} (h : f ∈ t.fences) (h' : f' ∈ t.fences)
    (hmeet : ¬f.span.Apart f'.span) : f = f' := by
  by_contra hne
  have hapart : t.fences.Pairwise fun a b => a.span.Apart b.span :=
    t.fences_pairwise.imp fun hlt => .inl (Nat.le_of_lt hlt)
  have : Std.Symm fun a b : Fence => a.span.Apart b.span := ⟨fun _ _ => Span.Apart.symm⟩
  exact hmeet (hapart.forall h h' hne)

/-- A character between two positions is in the piece between them. -/
theorem Text.mem_slice {t : Text} {c : Char} {i start stop : Nat} (h : t[i]? = some c)
    (hstart : start ≤ i) (hstop : i < stop) : c ∈ t.slice start stop := by
  refine List.mem_iff_getElem?.mpr ⟨i - start, ?_⟩
  unfold slice
  rw [List.getElem?_take_of_lt (by omega), List.getElem?_drop, Nat.add_sub_cancel' hstart, h]

/-- **No embed or image starts where a fence does, or reaches into it** from in front of it. -/
theorem Fence.Stands.not_reached {α : Type} {recognise : Recogniser α}
    (hmarked : recognise.Marked) {t : Text} {f : Fence} (hf : f.Stands t) {h : Hit α}
    (hmem : h ∈ t.scan recognise) : f.span.start < h.span.start ∨ h.span.stop ≤ f.span.start := by
  obtain ⟨-, -, hline⟩ := hmarked.of_mem_scan hmem
  rcases Nat.lt_trichotomy f.span.start h.span.start with hlt | heq | hgt
  · exact .inl hlt
  · -- Behind quote characters the text has a `!` by the hit, and a mark by the fence.
    obtain ⟨n, hfound, -⟩ := Text.recognised_of_mem_scan hmem
    obtain ⟨middle, after, hsplit, -, -⟩ := hmarked _ _ _ _ hfound
    obtain ⟨quote, c, rest, hmarks, hquote, hc⟩ := hf.marks
    rw [← heq] at hsplit
    have hquoteAt : ∀ x ∈ quoteAt (t.take f.span.start).getLast? (t.drop f.span.start),
        isQuoteChar x = true := by
      intro x hx
      by_contra hfalse
      exact not_mem_quoteAt (by simpa using hfalse) hx
    have hbang := congrArg (List.dropWhile isQuoteChar) hsplit
    rw [List.dropWhile_append_of_pos hquoteAt, hmarks, List.dropWhile_append_of_pos hquote] at hbang
    rcases hc with rfl | rfl <;> simp [List.dropWhile, isQuoteChar, isSpaceTab] at hbang
  · rcases Nat.lt_or_ge f.span.start h.span.stop with hlt | hge
    · rcases hf.opens with hzero | ⟨hpos, hbreak⟩
      · omega
      · exact absurd (Text.mem_slice hbreak (by omega) (by omega)) hline
    · exact .inr hge

end NotePress
