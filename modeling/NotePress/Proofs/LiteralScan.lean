import Mathlib.Data.List.TakeWhile
import NotePress.Proofs.BlockScan

/-!
# Scanning literal blocks

The lines of a literal block are indented, the empty ones are not. The reader takes a line, its
break, the empty lines behind it and the indentation of the next line, until a line is indented
less (`exists_readBlockLines?`). The breaks at the end of the text are told apart by the marks of
the block (`literalMarks_eq`), so any text is read back (`exists_readBlock?`).
-/

namespace NotePress.Yaml

variable {t ends more : Text} {c : Cursor} {n column : Nat}

/-! ### Breaks -/

/-- A line feed, or a break that stands for itself. -/
def IsLineBreak (x : Char) : Prop := x = '\n' ∨ x = '\u2028' ∨ x = '\u2029'

theorem IsLineBreak.isBreak {x : Char} (hx : IsLineBreak x) : isBreak x = true := by
  rcases hx with rfl | rfl | rfl <;> rfl

/-- **What ends the empty lines of a block** that is indented to a column: a line that is indented
as far, or one that is indented less. -/
def EndsBreaks (n column : Nat) (more : Text) : Prop :=
  (column = n ∧ ∃ y u, more = y :: u ∧ isBreak y = false) ∨
    (column < n ∧ ∀ y ∈ more.head?, isSpaceTab y = false ∧ isBreak y = false)

/-- Behind the empty lines, the indentation of the next line is read. -/
theorem readBlockBreaks?_end {done : Text} {fuel widest : Nat} (hends : EndsBreaks n column more)
    (hc : c.rest = List.replicate column ' ' ++ more) (hcolumn : c.column = 0) :
    readBlockBreaks? (some n) (fuel + 1) widest done c =
      some (max widest (c.skips column).column, done, c.skips column) := by
  have htaken : min ((c.rest.takeWhile (· = ' ')).length) (n - c.column) = column := by
    rw [hc, hcolumn, List.takeWhile_append_of_pos (by simp), List.length_append,
      List.length_replicate]
    rcases hends with ⟨rfl, -⟩ | ⟨hless, hmore⟩
    · omega
    · have hnone : more.takeWhile (fun x => decide (x = ' ')) = [] := by
        cases more with
        | nil => rfl
        | cons y u =>
          have hy : y ≠ ' ' := by
            rintro rfl
            exact absurd (hmore ' ' rfl).1 (by decide)
          simp [hy]
      rw [hnone, List.length_nil]
      omega
  have hstop : isBreakAt (c.skips column).peek = false ∧
      ¬((c.skips column).column < n ∧ (c.skips column).sees '\t' = true) := by
    unfold Cursor.sees Cursor.peek
    rw [Cursor.rest_skips, hc, List.drop_left' (by simp), Cursor.column_skips, hcolumn]
    rcases hends with ⟨rfl, y, u, rfl, hy⟩ | ⟨-, hmore⟩
    · exact ⟨hy, by omega⟩
    · cases more with
      | nil => exact ⟨rfl, by simp⟩
      | cons y u =>
        refine ⟨(hmore y rfl).2, ?_⟩
        rintro ⟨-, htab⟩
        obtain rfl : y = '\t' := by simpa using htab
        exact absurd (hmore _ rfl).1 (by decide)
  rw [readBlockBreaks?]
  simp only [htaken, hstop.1, Option.all_some, decide_eq_true_eq, hstop.2, if_false,
    Bool.false_eq_true]

/-- **Empty lines are read**, and the indentation of the line behind them. -/
theorem exists_readBlockBreaks? {breaks done : Text} {fuel widest : Nat}
    (hbreaks : ∀ x ∈ breaks, IsLineBreak x) (hends : EndsBreaks n column more)
    (hc : c.rest = breaks ++ (List.replicate column ' ' ++ more)) (hcolumn : c.column = 0)
    (hfuel : breaks.length < fuel) :
    ∃ widest' c', readBlockBreaks? (some n) fuel widest done c =
      some (widest', done ++ breaks, c') ∧ c'.rest = more ∧ c'.column = column := by
  induction breaks generalizing done widest c fuel with
  | nil =>
    obtain ⟨fuel, rfl⟩ : ∃ k, fuel = k + 1 := ⟨fuel - 1, by omega⟩
    rw [List.append_nil]
    refine ⟨_, _, readBlockBreaks?_end hends hc hcolumn, ?_, ?_⟩
    · rw [Cursor.rest_skips, hc, List.nil_append, List.drop_left' (by simp)]
    · rw [Cursor.column_skips, hcolumn, Nat.zero_add]
  | cons x breaks ih =>
    obtain ⟨hx, hbreaks⟩ := List.forall_mem_cons.mp hbreaks
    obtain ⟨fuel, rfl⟩ : ∃ k, fuel = k + 1 := ⟨fuel - 1, by rw [List.length_cons] at hfuel; omega⟩
    have hspace : x ≠ ' ' ∧ x ≠ '\t' := by rcases hx with rfl | rfl | rfl <;> decide
    have htaken : min ((c.rest.takeWhile (· = ' ')).length) (n - c.column) = 0 := by
      rw [hc]
      simp [hspace.1]
    obtain ⟨widest', c', hread, hrest, hcolumn'⟩ := @ih
      ⟨breaks ++ (List.replicate column ' ' ++ more), c.index + x.utf8Size, c.line + 1, 0⟩
      (done ++ [x]) fuel (max widest (c.skips 0).column) hbreaks rfl rfl
      (by rw [List.length_cons] at hfuel; omega)
    refine ⟨widest', c', ?_, hrest, hcolumn'⟩
    rw [readBlockBreaks?]
    simp only [htaken, Cursor.skips_zero, Cursor.peek_of_rest hc, isBreakAt, hx.isBreak, if_true,
      Cursor.sees_of_rest hc, hspace.2, decide_false, Bool.false_eq_true, and_false, if_false,
      Cursor.takeBreak_of_rest hc hx]
    rw [List.append_assoc] at hread
    exact hread

/-! ### Lines -/

/-- What is written behind a literal block, if the text does not end with a break itself. -/
def closing (t : Text) : Text := if t.getLast?.any isBreak then [] else ['\n']

theorem closing_concat (u : Text) (x : Char) :
    closing (u ++ [x]) = if isBreak x then [] else ['\n'] := by
  unfold closing
  rw [List.getLast?_concat]
  rfl

theorem closing_append {u : Text} (hu : u ≠ []) (t : Text) : closing (t ++ u) = closing u := by
  rw [← List.dropLast_concat_getLast hu, ← List.append_assoc, closing_concat, closing_concat]

/-- A text that begins with no break is a line, breaks, and what is left; without breaks nothing is
left. -/
theorem exists_line_breaks (hbegin : ∃ x u, t = x :: u ∧ isBreak x = false) :
    ∃ line breaks later, t = line ++ (breaks ++ later) ∧ line ≠ [] ∧
      (∀ x ∈ line, isBreak x = false) ∧ (∀ x ∈ breaks, isBreak x = true) ∧
        (∀ x ∈ later.head?, isBreak x = false) ∧ (breaks = [] → later = []) := by
  refine ⟨t.takeWhile fun x => !isBreak x, (t.dropWhile fun x => !isBreak x).takeWhile isBreak,
    (t.dropWhile fun x => !isBreak x).dropWhile isBreak, ?_, ?_, ?_, ?_, ?_, ?_⟩
  · rw [List.takeWhile_append_dropWhile, List.takeWhile_append_dropWhile]
  · obtain ⟨x, u, rfl, hx⟩ := hbegin
    rw [List.takeWhile_cons_of_pos (by simp [hx])]
    exact List.cons_ne_nil _ _
  · exact fun x hx => by simpa using List.mem_takeWhile_imp hx
  · exact fun x hx => List.mem_takeWhile_imp hx
  · intro x hx
    have hhead := List.head?_dropWhile_not isBreak (t.dropWhile fun x => !isBreak x)
    rw [hx] at hhead
    simpa using hhead
  · intro hnil
    have hhead := List.head?_dropWhile_not (fun x => !isBreak x) t
    generalize t.dropWhile (fun x => !isBreak x) = r at hnil hhead ⊢
    cases r with
    | nil => rfl
    | cons x rest => simp_all

theorem literalBody_line {line : Text} (hline : ∀ x ∈ line, isBreak x = false) (u : Text) :
    literalBody n false (line ++ u) = line ++ literalBody n false u := by
  induction line with
  | nil => rfl
  | cons x line ih =>
    obtain ⟨hx, hline⟩ := List.forall_mem_cons.mp hline
    rw [List.cons_append, literalBody, hx, ih hline]
    rfl

theorem literalBody_breaks {breaks : Text} {broken : Bool}
    (hbreaks : ∀ x ∈ breaks, isBreak x = true)
    (hbroken : breaks ≠ [] ∨ broken = true) (u : Text) :
    literalBody n broken (breaks ++ u) = breaks ++ literalBody n true u := by
  induction breaks generalizing broken with
  | nil => rw [hbroken.resolve_left (fun h => h rfl)]; rfl
  | cons x breaks ih =>
    obtain ⟨hx, hbreaks⟩ := List.forall_mem_cons.mp hbreaks
    rw [List.cons_append, literalBody, hx, if_pos rfl, ih hbreaks (.inr rfl)]
    rfl

theorem length_le_literalBody (n : Nat) (broken : Bool) (t : Text) :
    t.length ≤ (literalBody n broken t).length := by
  induction t generalizing broken with
  | nil => exact Nat.zero_le _
  | cons x t ih =>
    have htrue := ih true
    have hfalse := ih false
    unfold literalBody
    split <;> simp <;> omega

/-- A line that is not empty is indented. -/
theorem literalBody_indented {x : Char} {u : Text} (hx : isBreak x = false) :
    literalBody n true (x :: u) = List.replicate n ' ' ++ literalBody n false (x :: u) := by
  simp [literalBody, hx]

/-- The breaks that are read at the end of a block: those of the text, or the one behind it. -/
def endOf (ends : Text) : Text := if ends = [] then ['\n'] else ends

/-- The breaks at the end of a text. -/
def endingBreaks (t : Text) : Text := (t.reverse.takeWhile isBreak).reverse

theorem endingBreaks_append {u : Text} (hu : ∃ x ∈ u, isBreak x = false) (t : Text) :
    endingBreaks (t ++ u) = endingBreaks u := by
  obtain ⟨x, hx, hbreak⟩ := hu
  have hshort : (u.reverse.takeWhile isBreak).length ≠ u.reverse.length := fun hlength => by
    have hall := List.takeWhile_eq_self_iff.mp
      ((List.takeWhile_prefix isBreak).eq_of_length hlength) x (List.mem_reverse.mpr hx)
    rw [hbreak] at hall
    cases hall
  unfold endingBreaks
  rw [List.reverse_append, List.takeWhile_append, if_neg hshort]

theorem endingBreaks_line {line breaks : Text} (hne : line ≠ [])
    (hline : ∀ x ∈ line, isBreak x = false) (hbreaks : ∀ x ∈ breaks, isBreak x = true) :
    endingBreaks (line ++ breaks) = breaks := by
  have hlast := hline _ (List.getLast_mem hne)
  have hnone : line.reverse.takeWhile isBreak = [] := by
    rw [← List.dropLast_concat_getLast hne, List.reverse_concat]
    simp [hlast]
  unfold endingBreaks
  rw [List.reverse_append,
    List.takeWhile_append_of_pos fun x hx => hbreaks x (List.mem_reverse.mp hx),
    hnone, List.append_nil, List.reverse_reverse]

theorem isLineBreak_endOf (hshown : ∀ x ∈ ends, isShown x = true)
    (hends : ∀ x ∈ ends, isBreak x = true) : ∀ x ∈ endOf ends, IsLineBreak x := by
  unfold endOf
  split
  · simp [IsLineBreak]
  · exact fun x hx => isKeptBreak_of_isShown (hshown x hx) (hends x hx)

theorem endOf_ne_nil (ends : Text) : endOf ends ≠ [] := by
  unfold endOf
  split <;> simp_all

/-- The lines of a text whose first line is indented already, and the break behind them. -/
def literalLines (n : Nat) (t : Text) : Text := literalBody n false t ++ closing t

/-- Behind the last line stand its breaks, or the one that closes the block. -/
theorem literalLines_last {line breaks : Text} (hne : line ≠ [])
    (hline : ∀ x ∈ line, isBreak x = false) (hbreaks : ∀ x ∈ breaks, isBreak x = true) :
    literalLines n (line ++ breaks) = line ++ endOf breaks := by
  unfold literalLines endOf
  rw [literalBody_line hline, List.append_assoc]
  split
  · rename_i hnil
    have hlast := hline _ (List.getLast_mem hne)
    rw [hnil, List.append_nil, ← List.dropLast_concat_getLast hne, closing_concat, hlast]
    rfl
  · rename_i hsome
    have hbody := @literalBody_breaks n breaks false hbreaks (.inl hsome) []
    have hlast := hbreaks _ (List.getLast_mem hsome)
    rw [List.append_nil] at hbody
    rw [closing_append hsome, ← List.dropLast_concat_getLast hsome, closing_concat, hlast,
      List.dropLast_concat_getLast hsome, hbody]
    simp [literalBody]

/-- Behind other lines stand their breaks and the indentation of the next one. -/
theorem literalLines_append {line breaks later : Text} {y : Char}
    (hline : ∀ x ∈ line, isBreak x = false) (hbreaks : ∀ x ∈ breaks, isBreak x = true)
    (hsome : breaks ≠ []) (hy : isBreak y = false) :
    literalLines n (line ++ (breaks ++ y :: later)) =
      line ++ (breaks ++ (List.replicate n ' ' ++ literalLines n (y :: later))) := by
  unfold literalLines
  rw [literalBody_line hline, literalBody_breaks hbreaks (.inl hsome), literalBody_indented hy,
    closing_append (by simp) line, closing_append (List.cons_ne_nil y later)]
  simp only [List.append_assoc]

theorem exists_literalLines_cons {y : Char} (hy : isBreak y = false) (t : Text) :
    ∃ u, literalLines n (y :: t) = y :: u :=
  ⟨literalBody n false t ++ closing (y :: t), by simp [literalLines, literalBody, hy]⟩

/-- **A line is read**, with the breaks behind it. -/
theorem exists_readBlockLines?_line {line next : Text} {breaks : Text} {fuel : Nat} {s : BlockLines}
    (hne : line ≠ []) (hline : ∀ x ∈ line, isBreak x = false) (hsome : breaks ≠ [])
    (hbreaks : ∀ x ∈ breaks, IsLineBreak x) (hends : EndsBreaks n column next)
    (hc : c.rest = line ++ (breaks ++ (List.replicate column ' ' ++ next))) (hat : c.column = n) :
    ∃ s' c', readBlockLines? true n (fuel + 1) s c = readBlockLines? true n fuel s' c' ∧
      c'.rest = next ∧ c'.column = column ∧
      s'.done.reverse = s.done.reverse ++ (s.lineBreak ++ (s.emptyLines ++ line)) ∧
      s'.lineBreak = breaks.take 1 ∧ s'.emptyLines = breaks.drop 1 := by
  obtain ⟨b, breaks, rfl⟩ := List.exists_cons_of_ne_nil hsome
  obtain ⟨hb, hbreaks⟩ := List.forall_mem_cons.mp hbreaks
  have hpeek : c.peek.isNone = false := by
    unfold Cursor.peek
    rw [hc]
    cases line with
    | nil => exact absurd rfl hne
    | cons => rfl
  have htaken : c.takeWhile (fun x => !isBreak x) = (line, c.skips line.length) := by
    have htake : c.rest.takeWhile (fun x => !isBreak x) = line := by
      rw [hc, List.takeWhile_append_of_pos fun x hx => by simp [hline x hx]]
      simp [hb.isBreak]
    unfold Cursor.takeWhile
    rw [htake]
  have hrest : (c.skips line.length).rest =
      b :: (breaks ++ (List.replicate column ' ' ++ next)) := by
    rw [Cursor.rest_skips, hc, List.drop_left]
    rfl
  have hbreak := Cursor.takeBreak_of_rest hrest hb
  obtain ⟨widest, c', hread, hnext, hcolumn⟩ := @exists_readBlockBreaks? next
    ⟨breaks ++ (List.replicate column ' ' ++ next), (c.skips line.length).index + b.utf8Size,
      (c.skips line.length).line + 1, 0⟩ n column breaks []
    ((breaks ++ (List.replicate column ' ' ++ next)).length + 1) 0 hbreaks hends rfl rfl
    (by rw [List.length_append]; omega)
  rw [List.nil_append] at hread
  refine ⟨⟨line.reverse ++ s.emptyLines.reverse ++ s.lineBreak.reverse ++ s.done, [b], breaks,
    isGapAt c.peek⟩, c', ?_, hnext, hcolumn, by simp, rfl, rfl⟩
  rw [readBlockLines?]
  simp only [hat, ne_eq, not_true_eq_false, hpeek, Bool.false_eq_true, or_self, if_false, htaken,
    hbreak, hread, Bool.not_true, false_and]

/-- Where the next line is not indented as far, the block ends. -/
theorem readBlockLines?_end {fuel : Nat} {s : BlockLines} (hcolumn : c.column ≠ n) :
    readBlockLines? true n fuel s c = some (s, c) := by
  cases fuel with
  | zero => rfl
  | succ fuel => rw [readBlockLines?, if_pos (.inl hcolumn)]

/-- **The lines of a block are read**: the text up to its last line is done, and the breaks at the
end are what is left. -/
theorem exists_readBlockLines? (hshown : ∀ x ∈ t, isShown x = true)
    (hbegin : ∃ x u, t = x :: u ∧ isBreak x = false) (hcolumn : column < n)
    (hmore : ∀ y ∈ more.head?, isSpaceTab y = false ∧ isBreak y = false) {fuel : Nat}
    {s : BlockLines} (hc : c.rest = literalLines n t ++ (List.replicate column ' ' ++ more))
    (hat : c.column = n) (hfuel : t.length < fuel) :
    ∃ s' c', readBlockLines? true n fuel s c = some (s', c') ∧ c'.rest = more ∧
      c'.column = column ∧ s'.done.reverse ++ endingBreaks t =
        s.done.reverse ++ (s.lineBreak ++ (s.emptyLines ++ t)) ∧
      s'.lineBreak = (endOf (endingBreaks t)).take 1 ∧
      s'.emptyLines = (endOf (endingBreaks t)).drop 1 := by
  induction hlength : t.length using Nat.strong_induction_on generalizing t c fuel s with
  | _ length ih =>
    obtain ⟨fuel, rfl⟩ : ∃ k, fuel = k + 1 := ⟨fuel - 1, by omega⟩
    obtain ⟨line, breaks, later, rfl, hne, hline, hbreaks, hlater, hnothing⟩ :=
      exists_line_breaks hbegin
    cases later with
    | nil =>
      rw [List.append_nil] at hc hshown ⊢
      rw [literalLines_last hne hline hbreaks, List.append_assoc] at hc
      have hends : ∀ x ∈ endOf breaks, IsLineBreak x :=
        isLineBreak_endOf (fun x hx => hshown x (by simp [hx])) hbreaks
      obtain ⟨s', c', hread, hrest, hcolumn', hdone, hbreak, hempty⟩ :=
        @exists_readBlockLines?_line c n column line more (endOf breaks) fuel s hne hline
          (endOf_ne_nil breaks) hends (.inr ⟨hcolumn, hmore⟩) hc hat
      rw [endingBreaks_line hne hline hbreaks]
      refine ⟨s', c', ?_, hrest, hcolumn', ?_, hbreak, hempty⟩
      · rw [hread, readBlockLines?_end (by omega)]
      · rw [hdone]
        simp
    | cons y later =>
      have hsome : breaks ≠ [] := fun h => absurd (hnothing h) (List.cons_ne_nil _ _)
      have hy : isBreak y = false := hlater y rfl
      have hends : ∀ x ∈ breaks, IsLineBreak x := fun x hx =>
        isKeptBreak_of_isShown (hshown x (by simp [hx])) (hbreaks x hx)
      rw [literalLines_append hline hbreaks hsome hy] at hc
      simp only [List.append_assoc] at hc
      obtain ⟨u, hu⟩ := @exists_literalLines_cons n y hy later
      obtain ⟨s₁, c₁, hread₁, hrest₁, hcolumn₁, hdone₁, hbreak₁, hempty₁⟩ :=
        @exists_readBlockLines?_line c n n line
          (literalLines n (y :: later) ++ (List.replicate column ' ' ++ more)) breaks fuel s hne
          hline hsome hends (.inl ⟨rfl, y, _, by rw [hu]; rfl, hy⟩) hc hat
      have hlineLength : 0 < line.length := List.length_pos_iff.mpr hne
      simp only [List.length_append] at hlength hfuel
      obtain ⟨s', c', hread, hrest, hcolumn', hdone, hbreak, hempty⟩ :=
        ih (y :: later).length (by omega)
          (fun x hx => hshown x (List.mem_append_right _ (List.mem_append_right _ hx)))
          ⟨y, later, rfl, hy⟩ hrest₁ hcolumn₁ (show (y :: later).length < fuel by omega) rfl
      have hsame : endingBreaks (line ++ (breaks ++ y :: later)) = endingBreaks (y :: later) := by
        rw [← List.append_assoc]
        exact endingBreaks_append ⟨y, List.mem_cons_self .., hy⟩ _
      rw [hsame]
      refine ⟨s', c', hread₁.trans hread, hrest, hcolumn', ?_, hbreak, hempty⟩
      rw [hdone, hdone₁, hbreak₁, hempty₁, ← List.append_assoc (breaks.take 1),
        List.take_append_drop]
      simp

/-! ### Marks -/

/-- What happens to breaks at the end of a text, by the marks of its block. -/
def chompingOf : Text → Chomping
  | [] => .strip
  | [_] => .clip
  | _ => .keep

/-- The mark for what happens at the end of a text. -/
def chompingMark : Chomping → Text
  | .strip => ['-']
  | .clip => []
  | .keep => ['+']

/-- Whether the marks of a block say how far it is indented. -/
def marksIndent (t : Text) : Bool := t.head?.any fun c => c = ' ' || isBreak c

/-- **The marks of a block tell the breaks at its end apart.** -/
theorem literalMarks_eq (ht : ∃ x ∈ t, isBreak x = false) :
    literalMarks t = (if marksIndent t then ['2'] else []) ++
      chompingMark (chompingOf (endingBreaks t)) := by
  obtain ⟨x, hx, hbreak⟩ := ht
  have hx : x ∈ t.reverse := List.mem_reverse.mpr hx
  unfold literalMarks endingBreaks
  congr 1
  generalize t.reverse = r at hx
  match r, hx with
  | c :: before, hx =>
    by_cases hc : isBreak c = true
    · match before, hx with
      | [], hx =>
        rw [List.mem_singleton.mp hx, hc] at hbreak
        cases hbreak
      | d :: before, _ =>
        by_cases hd : isBreak d = true
        · have hkeep : ∀ u : Text, chompingOf (u ++ [d, c]) = .keep := fun u => by
            cases u with
            | nil => rfl
            | cons e u => cases u <;> rfl
          simp [hc, hd, hkeep, chompingMark]
        · simp [hc, hd, chompingOf, chompingMark]
    · simp [hc, chompingOf, chompingMark]

/-- Of a text of breaks alone, all are kept. -/
theorem literalMarks_of_breaks (hne : t ≠ []) (ht : ∀ x ∈ t, isBreak x = true) :
    literalMarks t = '2' :: chompingMark .keep := by
  obtain ⟨x, u, rfl⟩ := List.exists_cons_of_ne_nil hne
  have hx := ht x (List.mem_cons_self ..)
  unfold literalMarks
  rcases List.eq_nil_or_concat u with rfl | ⟨u, b, rfl⟩
  · simp [hx, chompingMark]
  · have hb := ht b (by simp)
    rcases List.eq_nil_or_concat u with rfl | ⟨u, d, rfl⟩
    · simp [hb, hx, chompingMark]
    · have hd := ht d (by simp)
      simp [hb, hd, hx, chompingMark]

/-- **The marks of a block are read.** -/
theorem readBlockMarks?_marks (digit : Bool) (chomping : Chomping) {tail : Text}
    (hc : c.rest = (if digit then ['2'] else []) ++ (chompingMark chomping ++ '\n' :: tail)) :
    ∃ c', readBlockMarks? true c =
      some (⟨true, chomping, if digit then some 2 else none⟩, c') ∧ c'.rest = '\n' :: tail := by
  obtain ⟨rest, index, line, column⟩ := c
  obtain rfl := hc
  cases digit <;> cases chomping <;> exact ⟨_, rfl, rfl⟩

/-! ### Blocks -/

/-- The break behind the marks, and what decides how far the block is indented. -/
theorem readBlock?_marks {parent : Nat} {digit : Bool} {chomping : Chomping} {tail : Text}
    (hc : c.rest =
      '|' :: ((if digit then ['2'] else []) ++ (chompingMark chomping ++ '\n' :: tail))) :
    ∃ c' : Cursor, c'.rest = tail ∧ c'.column = 0 ∧ readBlock? true parent c =
      (readBlockBreaks? (if digit then some (parent + 2) else none) (c'.rest.length + 1) 0 []
        c').bind fun p => (readBlockLines? true
            (if digit then parent + 2 else max p.1 (parent + 1)) (p.2.2.rest.length + 1)
            ⟨[], [], p.2.1, false⟩ p.2.2).map fun q => (q.1.value chomping, q.2) := by
  obtain ⟨c₁, hmarks, hrest⟩ := @readBlockMarks?_marks (c.skips 1) digit chomping tail
    (by rw [Cursor.rest_skips, hc]; rfl)
  have hgap : c₁.dropWhile isSpaceTab = c₁ := by
    unfold Cursor.dropWhile Cursor.takeWhile
    rw [hrest]
    rfl
  have hparent : max ((parent : Int) + 1).toNat 1 = parent + 1 := by omega
  refine ⟨⟨tail, c₁.index + '\n'.utf8Size, c₁.line + 1, 0⟩, rfl, rfl, ?_⟩
  unfold readBlock?
  rw [Cursor.skip_eq_skips hc, hmarks]
  simp only [hgap, Cursor.sees_of_rest hrest, show ('\n' = '#') = False by decide, decide_false,
    Bool.false_eq_true, if_false, Cursor.peek_of_rest hrest, isBreakOrEnd,
    show isBreak '\n' = true from rfl, Bool.not_true, Cursor.takeBreak_of_rest hrest (.inl rfl)]
  cases digit <;>
    simp only [Bool.false_eq_true, if_false, if_true, Option.map_none, Option.map_some,
      Int.natCast_nonneg, Int.toNat_natCast, Option.getD_none, Option.getD_some, hparent] <;>
    generalize readBlockBreaks? _ (tail.length + 1) 0 [] _ = read <;>
    cases read <;> rfl

/-- A block whose first line says how far it is indented. -/
theorem readBlockBreaks?_first {y : Char} {u : Text} {fuel : Nat}
    (hy : isSpaceTab y = false ∧ isBreak y = false)
    (hc : c.rest = List.replicate n ' ' ++ y :: u) (hcolumn : c.column = 0) :
    readBlockBreaks? none (fuel + 1) 0 [] c = some (n, [], c.skips n) := by
  have hne : y ≠ ' ' ∧ y ≠ '\t' := by
    constructor <;> rintro rfl <;> exact absurd hy.1 (by decide)
  have htaken : (c.rest.takeWhile (· = ' ')).length = n := by
    rw [hc, List.takeWhile_append_of_pos (by simp)]
    simp [hne.1]
  have hrest : (c.skips n).rest = y :: u := by
    rw [Cursor.rest_skips, hc, List.drop_left' (by simp)]
  rw [readBlockBreaks?]
  simp only [htaken, Cursor.sees_of_rest hrest, hne.2, decide_false, Bool.false_eq_true, and_false,
    if_false, Cursor.peek_of_rest hrest, isBreakAt, hy.2, Cursor.column_skips, hcolumn,
    Nat.zero_add, Nat.zero_max]

/-- **The empty lines at the beginning of a block are read**, and the indentation of its first line,
whether the marks say how far it is indented or not. -/
theorem exists_readBlockBreaks?_begin {parent fuel : Nat} {leading later tail : Text} {y : Char}
    (hshown : ∀ x ∈ leading ++ y :: later, isShown x = true)
    (hleading : ∀ x ∈ leading, isBreak x = true) (hy : isBreak y = false)
    (hc : c.rest = leading ++ (List.replicate (parent + 2) ' ' ++ (y :: tail)))
    (hcolumn : c.column = 0) (hfuel : leading.length < fuel) :
    ∃ widest c', readBlockBreaks?
        (if marksIndent (leading ++ y :: later) then some (parent + 2) else none) fuel 0 [] c =
        some (widest, leading, c') ∧ c'.rest = y :: tail ∧ c'.column = parent + 2 ∧
      (if marksIndent (leading ++ y :: later) then parent + 2 else max widest (parent + 1)) =
        parent + 2 := by
  split
  · obtain ⟨widest, c', hread, hrest, hcolumn'⟩ := @exists_readBlockBreaks? (y :: tail) c
      (parent + 2) (parent + 2) leading [] fuel 0 (fun x hx => isKeptBreak_of_isShown
        (hshown x (List.mem_append_left _ hx)) (hleading x hx)) (.inl ⟨rfl, y, tail, rfl, hy⟩) hc
      hcolumn hfuel
    exact ⟨widest, c', hread, hrest, hcolumn', rfl⟩
  · rename_i hmarks
    cases leading with
    | cons b leading =>
      have hb := hleading b (List.mem_cons_self ..)
      exact absurd (by simp [marksIndent, hb]) hmarks
    | nil =>
      have hspace : y ≠ ' ' := by
        rintro rfl
        exact hmarks rfl
      obtain ⟨fuel, rfl⟩ : ∃ k, fuel = k + 1 := ⟨fuel - 1, by omega⟩
      have hgap := isSpaceTab_of_isShown (hshown y (List.mem_cons_self ..)) hspace
      refine ⟨parent + 2, c.skips (parent + 2), readBlockBreaks?_first ⟨hgap, hy⟩ hc hcolumn, ?_,
        ?_, by omega⟩
      · rw [Cursor.rest_skips, hc, List.nil_append, List.drop_left' (by simp)]
      · rw [Cursor.column_skips, hcolumn, Nat.zero_add]

/-- The value of a block whose end is chomped as its marks say. -/
theorem value_chompingOf {s : BlockLines} (hbreak : s.lineBreak = (endOf ends).take 1)
    (hempty : s.emptyLines = (endOf ends).drop 1) :
    s.value (chompingOf ends) = s.done.reverse ++ ends := by
  unfold BlockLines.value
  rw [hbreak, hempty]
  cases ends with
  | nil => simp [chompingOf]
  | cons b ends => cases ends <;> simp [chompingOf, endOf]

/-- A literal block of breaks alone is read back. -/
theorem exists_readBlock?_breaks {parent : Nat} (hne : t ≠ []) (hbreaks : ∀ x ∈ t, isBreak x = true)
    (hshown : ∀ x ∈ t, isShown x = true) (hcolumn : column ≤ parent)
    (hmore : ∀ y ∈ more.head?, isSpaceTab y = false ∧ isBreak y = false)
    (hc : c.rest =
      writeLiteral (parent + 2) t ++ (closing t ++ (List.replicate column ' ' ++ more))) :
    ∃ c', readBlock? true parent c = some (t, c') ∧ c'.rest = more ∧ c'.column = column := by
  have hclosing : closing t = [] := by
    rw [← List.dropLast_concat_getLast hne, closing_concat, hbreaks _ (List.getLast_mem hne)]
    rfl
  have hbody := @literalBody_breaks (parent + 2) t true hbreaks (.inr rfl) []
  rw [List.append_nil] at hbody
  have hwritten : c.rest = '|' :: ((if true then ['2'] else []) ++
      (chompingMark .keep ++ '\n' :: (t ++ (List.replicate column ' ' ++ more)))) := by
    rw [hc, hclosing, writeLiteral, literalMarks_of_breaks hne hbreaks, hbody]
    simp [literalBody]
  obtain ⟨c₁, hrest₁, hcolumn₁, hread⟩ := @readBlock?_marks c parent true .keep _ hwritten
  obtain ⟨widest, c₂, hempty, hrest₂, hcolumn₂⟩ := @exists_readBlockBreaks? more c₁ (parent + 2)
    column t [] (c₁.rest.length + 1) 0
    (fun x hx => isKeptBreak_of_isShown (hshown x hx) (hbreaks x hx)) (.inr ⟨by omega, hmore⟩)
    hrest₁ hcolumn₁ (by rw [hrest₁, List.length_append]; omega)
  have hend : c₂.column ≠ parent + 2 := by omega
  refine ⟨c₂, ?_, hrest₂, hcolumn₂⟩
  rw [hread, if_pos rfl, hempty, Option.bind_some, if_pos rfl, readBlockLines?_end hend]
  simp [BlockLines.value]

/-- A literal block with a line is read back; empty lines may stand in front of it. -/
theorem exists_readBlock?_lines {parent : Nat} {leading later : Text} {y : Char}
    (hleading : ∀ x ∈ leading, isBreak x = true) (hy : isBreak y = false)
    (hshown : ∀ x ∈ leading ++ y :: later, isShown x = true) (hcolumn : column ≤ parent)
    (hmore : ∀ z ∈ more.head?, isSpaceTab z = false ∧ isBreak z = false)
    (hc : c.rest = writeLiteral (parent + 2) (leading ++ y :: later) ++
      (closing (leading ++ y :: later) ++ (List.replicate column ' ' ++ more))) :
    ∃ c', readBlock? true parent c = some (leading ++ y :: later, c') ∧ c'.rest = more ∧
      c'.column = column := by
  have hsome : ∃ x ∈ y :: later, isBreak x = false := ⟨y, List.mem_cons_self .., hy⟩
  have hbody := @literalBody_breaks (parent + 2) leading true hleading (.inr rfl) (y :: later)
  have hmarks := @literalMarks_eq (leading ++ y :: later)
    ⟨y, List.mem_append_right _ (List.mem_cons_self ..), hy⟩
  rw [endingBreaks_append hsome] at hmarks
  have hwritten : c.rest = '|' :: ((if marksIndent (leading ++ y :: later) then ['2'] else []) ++
      (chompingMark (chompingOf (endingBreaks (y :: later))) ++ '\n' :: (leading ++
        (List.replicate (parent + 2) ' ' ++ (literalLines (parent + 2) (y :: later) ++
          (List.replicate column ' ' ++ more)))))) := by
    rw [hc, writeLiteral, hmarks, hbody, literalBody_indented hy,
      closing_append (List.cons_ne_nil y later)]
    simp [literalLines]
  obtain ⟨c₁, hrest₁, hcolumn₁, hread⟩ := @readBlock?_marks c parent _ _ _ hwritten
  obtain ⟨u, hu⟩ := @exists_literalLines_cons (parent + 2) y hy later
  obtain ⟨widest, c₂, hbreaks, hrest₂, hcolumn₂, hindent⟩ := @exists_readBlockBreaks?_begin c₁
    parent (c₁.rest.length + 1) leading later (u ++ (List.replicate column ' ' ++ more)) y hshown
    hleading hy (by rw [hrest₁, hu]; rfl) hcolumn₁ (by rw [hrest₁, List.length_append]; omega)
  have hlines : c₂.rest =
      literalLines (parent + 2) (y :: later) ++ (List.replicate column ' ' ++ more) := by
    rw [hrest₂, hu]
    rfl
  have hlength : (y :: later).length < c₂.rest.length + 1 := by
    have := length_le_literalBody (parent + 2) false (y :: later)
    rw [hlines, literalLines, List.length_append, List.length_append]
    omega
  obtain ⟨s', c', hread', hrest, hcolumn', hdone, hbreak, hempty⟩ := @exists_readBlockLines?
    (y :: later) more c₂ (parent + 2) column
    (fun x hx => hshown x (List.mem_append_right _ hx)) ⟨y, later, rfl, hy⟩ (by omega) hmore
    (c₂.rest.length + 1) ⟨[], [], leading, false⟩ hlines hcolumn₂ hlength
  refine ⟨c', ?_, hrest, hcolumn'⟩
  rw [hread, hbreaks, Option.bind_some, hindent, hread', Option.map_some,
    value_chompingOf hbreak hempty, hdone]
  simp

/-- **A literal block is read back**, and the indentation of the line behind it. -/
theorem exists_readBlock? {parent : Nat} (hne : t ≠ []) (hshown : ∀ x ∈ t, isShown x = true)
    (hcolumn : column ≤ parent)
    (hmore : ∀ y ∈ more.head?, isSpaceTab y = false ∧ isBreak y = false)
    (hc : c.rest =
      writeLiteral (parent + 2) t ++ (closing t ++ (List.replicate column ' ' ++ more))) :
    ∃ c', readBlock? true parent c = some (t, c') ∧ c'.rest = more ∧ c'.column = column := by
  have hhead := List.head?_dropWhile_not isBreak t
  have hleading : ∀ x ∈ t.takeWhile isBreak, isBreak x = true := fun x hx =>
    List.mem_takeWhile_imp hx
  have hsplit : t = t.takeWhile isBreak ++ t.dropWhile isBreak :=
    List.takeWhile_append_dropWhile.symm
  generalize t.takeWhile isBreak = leading at hleading hsplit
  generalize t.dropWhile isBreak = later at hhead hsplit
  subst hsplit
  cases later with
  | nil =>
    rw [List.append_nil] at hne hshown hc ⊢
    exact exists_readBlock?_breaks hne hleading hshown hcolumn hmore hc
  | cons y later =>
    exact exists_readBlock?_lines hleading (by simpa using hhead) hshown hcolumn hmore hc

end NotePress.Yaml
