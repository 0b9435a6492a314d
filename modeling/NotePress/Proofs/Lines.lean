import Mathlib.Data.List.TakeWhile
import NotePress.Note.Line
import NotePress.Proofs.Splicing

/-!
# The lines of a text

Where lines stand and what is between them. `Text.LinedFrom` says it without splitting anything:
lines follow on each other, each with its break, and the last one need not have one. It holds of
`Text.lines` and of no other list of lines (`Text.linedFrom_iff`). So the lines behind a first one
are those of the text behind its break, as much further on as the two are long (`Text.lines_line`).
-/

namespace NotePress

/-- Two lists that are cut at their first element with a property are cut at the same one. -/
theorem eq_of_first {α : Type} {P : α → Prop} {x y u v : List α} {a b : α} (hx : ∀ c ∈ x, ¬P c)
    (hy : ∀ c ∈ y, ¬P c) (ha : P a) (hb : P b) (h : x ++ a :: u = y ++ b :: v) :
    x = y ∧ a = b ∧ u = v := by
  rcases List.append_eq_append_iff.mp h with ⟨rest, rfl, hrest⟩ | ⟨rest, rfl, hrest⟩
  · cases rest with
    | nil =>
      cases hrest
      exact ⟨(List.append_nil x).symm, rfl, rfl⟩
    | cons c rest =>
      cases hrest
      exact absurd ha (hy a (by simp))
  · cases rest with
    | nil =>
      cases hrest
      exact ⟨List.append_nil y, rfl, rfl⟩
    | cons c rest =>
      cases hrest
      exact absurd hb (hx b (by simp))

theorem isPrefix_dropCarriageReturn (t : Text) : dropCarriageReturn t <+: t := by
  unfold dropCarriageReturn
  split
  · exact List.dropLast_prefix t
  · exact List.prefix_rfl

/-- What breaks a line with some content: a line feed, with the carriage return in front of it if
there is one. -/
inductive LineBreak (content : Text) : Text → Prop where
  | lineFeed (h : content.getLast? ≠ some '\r') : LineBreak content ['\n']
  | carriageReturn : LineBreak content ['\r', '\n']

theorem LineBreak.ne_nil {content brk : Text} (h : LineBreak content brk) : brk ≠ [] := by
  cases h <;> exact List.cons_ne_nil _ _

theorem LineBreak.mem {content brk : Text} (h : LineBreak content brk) : '\n' ∈ brk := by
  cases h <;> simp

/-- A piece in front of a line feed is a line and what is in front of the line feed in its break. -/
theorem exists_lineBreak (piece : Text) :
    ∃ brk, LineBreak (dropCarriageReturn piece) brk ∧
      piece ++ ['\n'] = dropCarriageReturn piece ++ brk := by
  unfold dropCarriageReturn
  split
  · rename_i hlast
    obtain ⟨front, rfl⟩ := List.getLast?_eq_some_iff.mp hlast
    refine ⟨_, .carriageReturn, ?_⟩
    rw [List.dropLast_concat, List.append_assoc]
    rfl
  · rename_i hlast
    exact ⟨_, .lineFeed hlast, rfl⟩

/-- A line and its break are told by the text that begins with them. -/
theorem LineBreak.unique {content content' brk brk' u u' : Text} (hfree : '\n' ∉ content)
    (hfree' : '\n' ∉ content') (h : LineBreak content brk) (h' : LineBreak content' brk')
    (heq : content ++ (brk ++ u) = content' ++ (brk' ++ u')) :
    content = content' ∧ brk = brk' := by
  have hcut : ∀ {x y v v' : Text}, '\n' ∉ x → '\n' ∉ y → x ++ '\n' :: v = y ++ '\n' :: v' →
      x = y := fun hx hy hsplit =>
    (eq_of_first (P := (· = '\n')) (fun _ hc heq => hx (heq ▸ hc)) (fun _ hc heq => hy (heq ▸ hc))
      rfl rfl hsplit).1
  have hcr : ∀ {x : Text}, '\n' ∉ x → '\n' ∉ x ++ ['\r'] := fun hx hmem =>
    (List.mem_append.mp hmem).elim hx (by decide)
  cases h with
  | lineFeed hlast =>
    cases h' with
    | lineFeed => exact ⟨hcut hfree hfree' heq, rfl⟩
    | carriageReturn =>
      have heq : content ++ '\n' :: u = content' ++ ['\r'] ++ '\n' :: u' := by simpa using heq
      obtain rfl := hcut hfree (hcr hfree') heq
      exact absurd List.getLast?_concat hlast
  | carriageReturn =>
    cases h' with
    | lineFeed hlast =>
      have heq : content ++ ['\r'] ++ '\n' :: u = content' ++ '\n' :: u' := by simpa using heq
      obtain rfl := hcut (hcr hfree) hfree' heq
      exact absurd List.getLast?_concat hlast
    | carriageReturn =>
      have heq : content ++ ['\r'] ++ '\n' :: u = content' ++ ['\r'] ++ '\n' :: u' := by
        simpa using heq
      exact ⟨List.append_cancel_right (hcut (hcr hfree) (hcr hfree') heq), rfl⟩

/-- The line that stands `k` characters further on. -/
def Line.shift (k : Nat) (l : Line) : Line := ⟨l.start + k, l.content⟩

theorem Line.stop_shift (k : Nat) (l : Line) : (l.shift k).stop = l.stop + k :=
  Nat.add_right_comm ..

namespace Text

/-- Lines of a text, from a position on to its end. -/
inductive LinedFrom (t : Text) : Nat → List Line → Prop where
  | done {pos : Nat} (h : t.drop pos = []) : LinedFrom t pos []
  /-- The last line may have no break. -/
  | last {pos : Nat} {content : Text} (h : t.drop pos = content) (hne : content ≠ [])
      (hfree : '\n' ∉ content) : LinedFrom t pos [⟨pos, content⟩]
  | line {pos : Nat} {content brk : Text} {lines : List Line}
      (h : t.drop pos = content ++ (brk ++ t.drop (pos + content.length + brk.length)))
      (hfree : '\n' ∉ content) (hbreak : LineBreak content brk)
      (rest : LinedFrom t (pos + content.length + brk.length) lines) :
      LinedFrom t pos (⟨pos, content⟩ :: lines)

variable {t : Text} {pos : Nat} {lines lines' : List Line}

/-- The pieces between line feeds are lines. -/
theorem linedFrom_linesOfPieces {u : Text} (hu : t.drop pos = u) :
    LinedFrom t pos (linesOfPieces pos (u.splitOn '\n')) := by
  induction hn : u.length using Nat.strong_induction_on generalizing u pos with
  | _ n ih =>
    by_cases hbreak : '\n' ∈ u
    · obtain ⟨piece, rest, rfl, hpiece⟩ := List.eq_append_cons_of_mem hbreak
      have hrest : t.drop (pos + piece.length + 1) = rest := by
        rw [Nat.add_assoc, ← List.drop_drop, hu, ← List.drop_drop, List.drop_left]
        rfl
      obtain ⟨brk, hbrk, hsplit⟩ := exists_lineBreak piece
      have hlength := congrArg List.length hsplit
      simp only [List.length_append, List.length_cons, List.length_nil] at hlength
      have hnext : pos + (dropCarriageReturn piece).length + brk.length =
          pos + piece.length + 1 := by omega
      rw [List.splitOn_append_cons_self_of_not_mem hpiece]
      rcases hpieces : rest.splitOn '\n' with _ | ⟨next, later⟩
      · exact absurd hpieces (List.splitOn_ne_nil _ _)
      · refine .line ?_ (fun hmem => hpiece ((isPrefix_dropCarriageReturn piece).subset hmem))
          hbrk ?_
        · rw [hu, hnext, hrest, ← List.append_assoc, ← hsplit]
          simp
        · rw [hnext, ← hpieces]
          refine ih rest.length ?_ hrest rfl
          rw [← hn, List.length_append, List.length_cons]
          omega
    · rw [List.splitOn_eq_singleton hbreak]
      unfold linesOfPieces
      split
      · rename_i hnil
        exact .done (hu.trans hnil)
      · rename_i hne
        exact .last hu hne hbreak

theorem linedFrom_lines (t : Text) : t.LinedFrom 0 t.lines := linedFrom_linesOfPieces rfl

namespace LinedFrom

/-- There is one way to cut a text into lines. -/
theorem unique (h : t.LinedFrom pos lines) (h' : t.LinedFrom pos lines') : lines = lines' := by
  induction h generalizing lines' with
  | done h =>
    cases h' with
    | done => rfl
    | last h' hne => exact absurd (h'.symm.trans h) hne
    | line h' _ hbreak =>
      rw [h, eq_comm, List.append_eq_nil_iff, List.append_eq_nil_iff] at h'
      exact absurd h'.2.1 hbreak.ne_nil
  | last h hne hfree =>
    cases h' with
    | done h' => exact absurd (h.symm.trans h') hne
    | last h' => rw [← h, ← h']
    | line h' _ hbreak =>
      refine absurd ?_ hfree
      rw [← h, h']
      exact List.mem_append_right _ (List.mem_append_left _ hbreak.mem)
  | @line pos content brk lines h hfree hbreak rest ih =>
    cases h' with
    | done h' =>
      rw [h', eq_comm, List.append_eq_nil_iff, List.append_eq_nil_iff] at h
      exact absurd h.2.1 hbreak.ne_nil
    | last h' _ hfree' =>
      refine absurd ?_ hfree'
      rw [← h', h]
      exact List.mem_append_right _ (List.mem_append_left _ hbreak.mem)
    | line h' hfree' hbreak' rest' =>
      obtain ⟨rfl, rfl⟩ := hbreak.unique hfree hfree' hbreak' (h.symm.trans h')
      rw [ih rest']

/-- Later lines are lines from a later position on. -/
theorem append_right {before : List Line} (h : t.LinedFrom pos (before ++ lines)) :
    ∃ pos', t.LinedFrom pos' lines := by
  induction before generalizing pos with
  | nil => exact ⟨pos, h⟩
  | cons l rest ih =>
    rw [List.cons_append] at h
    generalize hbehind : rest ++ lines = behind at h
    cases h with
    | last =>
      obtain ⟨rfl, rfl⟩ := List.append_eq_nil_iff.mp hbehind
      exact ⟨t.length, .done List.drop_length⟩
    | line _ _ _ hrest =>
      subst hbehind
      exact ih hrest

theorem start_eq {l : Line} {rest : List Line} (h : t.LinedFrom pos (l :: rest)) :
    l.start = pos := by
  cases h <;> rfl

/-- No line goes past the end of the text. -/
theorem stop_le (h : t.LinedFrom pos lines) {l : Line} (hl : l ∈ lines) : l.stop ≤ t.length := by
  induction h with
  | done => cases hl
  | @last pos content h hne _ =>
    obtain rfl := List.mem_singleton.mp hl
    have hlength := congrArg List.length h
    have hpos := List.length_pos_iff.mpr hne
    rw [List.length_drop] at hlength
    show pos + content.length ≤ _
    omega
  | @line pos content brk rest h _ hbreak _ ih =>
    rcases List.mem_cons.mp hl with rfl | hl
    · have hlength := congrArg List.length h
      have hpos := List.length_pos_iff.mpr hbreak.ne_nil
      rw [List.length_drop, List.length_append, List.length_append] at hlength
      show pos + content.length ≤ _
      omega
    · exact ih hl

/-- Every line starts in front of the end of the text. -/
theorem start_lt (h : t.LinedFrom pos lines) {l : Line} (hl : l ∈ lines) : l.start < t.length := by
  induction h with
  | done => cases hl
  | @last pos content h hne _ =>
    obtain rfl := List.mem_singleton.mp hl
    have hlength := congrArg List.length h
    have hpos := List.length_pos_iff.mpr hne
    rw [List.length_drop] at hlength
    show pos < _
    omega
  | @line pos content brk rest h _ hbreak _ ih =>
    rcases List.mem_cons.mp hl with rfl | hl
    · have hlength := congrArg List.length h
      have hpos := List.length_pos_iff.mpr hbreak.ne_nil
      rw [List.length_drop, List.length_append, List.length_append] at hlength
      show pos < _
      omega
    · exact ih hl

/-- What stands between a line and the next one is the break of the line. -/
theorem exists_break {before after : List Line} {l next : Line}
    (h : t.LinedFrom pos (before ++ l :: next :: after)) :
    ∃ brk, LineBreak l.content brk ∧ l.stop + brk.length = next.start ∧
      t.slice l.stop next.start = brk := by
  obtain ⟨pos', hfrom⟩ := h.append_right
  cases hfrom with
  | @line _ content brk _ hdrop _ hbreak rest =>
    refine ⟨brk, hbreak, rest.start_eq.symm, ?_⟩
    rw [rest.start_eq]
    show t.slice (pos' + content.length) _ = _
    rw [slice, ← List.drop_drop, hdrop, List.drop_left, Nat.add_sub_cancel_left, List.take_left]

/-- The rest of a text starts with one of its lines, unless it is empty. -/
theorem starts (h : t.LinedFrom pos lines) :
    t.drop pos = [] ∨ ∃ l ∈ lines, t.drop pos = t.drop l.start := by
  cases h with
  | done h => exact .inl h
  | last => exact .inr ⟨_, List.mem_singleton_self _, rfl⟩
  | line => exact .inr ⟨_, List.mem_cons_self .., rfl⟩

/-- A text in front moves all lines. -/
theorem shift (h : t.LinedFrom pos lines) (front : Text) :
    LinedFrom (front ++ t) (pos + front.length) (lines.map (Line.shift front.length)) := by
  have hdrop : ∀ p, (front ++ t).drop (p + front.length) = t.drop p := fun p => by
    rw [Nat.add_comm, ← List.drop_drop, List.drop_left]
  induction h with
  | done h => exact .done ((hdrop _).trans h)
  | last h hne hfree => exact .last ((hdrop _).trans h) hne hfree
  | @line pos content brk _ h hfree hbreak _ ih =>
    have hnext : pos + content.length + brk.length + front.length =
        pos + front.length + content.length + brk.length := by omega
    rw [hnext] at ih
    refine .line ?_ hfree hbreak ih
    rw [hdrop, ← hnext, hdrop]
    exact h

end LinedFrom

/-- **The lines of a text.** -/
theorem linedFrom_iff : t.LinedFrom 0 lines ↔ lines = t.lines := by
  constructor
  · intro h
    exact h.unique (linedFrom_lines t)
  · rintro rfl
    exact linedFrom_lines t

/-- A line with its break comes in front of the other lines. -/
theorem lines_line {content brk : Text} (hfree : '\n' ∉ content) (hbreak : LineBreak content brk)
    (rest : Text) : Text.lines (content ++ (brk ++ rest)) =
      ⟨0, content⟩ :: rest.lines.map (Line.shift (content ++ brk).length) := by
  have hlater := rest.linedFrom_lines.shift (content ++ brk)
  rw [List.append_assoc, Nat.zero_add, List.length_append] at hlater
  refine (linedFrom_iff.mp (.line ?_ hfree hbreak ?_)).symm
  · rw [List.drop_zero, Nat.zero_add, ← List.drop_drop, List.drop_left, List.drop_left]
  · rwa [Nat.zero_add, List.length_append]

theorem contents_line {content : Text} (hfree : '\n' ∉ content)
    (hreturn : content.getLast? ≠ some '\r') (rest : Text) :
    (Text.lines (content ++ '\n' :: rest)).map (·.content) =
      content :: rest.lines.map (·.content) := by
  have hlines := lines_line hfree (.lineFeed hreturn) rest
  rw [List.singleton_append] at hlines
  rw [hlines, List.map_cons, List.map_map]
  rfl

/-- A text without breaks is one line, if it is not empty. -/
theorem lines_of_not_mem (hfree : '\n' ∉ t) (hne : t ≠ []) : t.lines = [⟨0, t⟩] :=
  (linedFrom_iff.mp (.last List.drop_zero hne hfree)).symm

end Text

end NotePress
