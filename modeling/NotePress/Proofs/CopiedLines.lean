import Mathlib.Data.List.Forall2
import NotePress.Proofs.LeftmostFences
import NotePress.Proofs.LineLocal
import NotePress.Proofs.Trimming

/-!
# Fences of copied lines

Which fences some lines have is said from the front by `Paired`, of the lines alone. So lines can be
cut where no fence goes over the cut (`fencesFrom_append`), and lines that are copied into another
text have there the fences they had (`Paired.copied`). A copy may lack a carriage return at its end
(`Line.Copies`), on which no fence depends; lines that are joined by line feeds are copied so
(`copies_lines_unlines`).
-/

namespace NotePress

variable {t s : Text} {line closing l m : Line} {lines inner after rest ls ms : List Line}
  {fences fs gs : List Fence} {o : FenceLine}

/-! ### Fences from the front -/

/-- **The fences of some lines, from the front**: a line that opens none is passed over, and a line
that opens one goes with all lines up to the first that closes it. -/
inductive Paired (t : Text) : List Line → List Fence → Prop where
  | nil : Paired t [] []
  | free {line : Line} {rest : List Line} {fences : List Fence}
      (hopens : ∀ o, line.Opens o → ∀ l ∈ rest, ¬l.Closes o) (hrest : Paired t rest fences) :
      Paired t (line :: rest) fences
  | fence {line closing : Line} {inner after : List Line} {fences : List Fence} {o : FenceLine}
      (hopens : line.Opens o) (hinner : ∀ l ∈ inner, ¬l.Closes o) (hcloses : closing.Closes o)
      (hafter : Paired t after fences) :
      Paired t (line :: (inner ++ closing :: after))
        (⟨⟨line.start, closing.stop⟩, o.quote, o.marker, o.info, t.cover inner⟩ :: fences)

theorem fencesFrom_free (hopens : ∀ o, line.Opens o → ∀ l ∈ rest, ¬l.Closes o) :
    fencesFrom t 0 (line :: rest) = fencesFrom t 0 rest := by
  rw [fencesFrom]
  split
  · rfl
  · rename_i o ho
    split
    · rfl
    · rename_i j hj
      obtain ⟨hlt, hcloses, -⟩ := List.findIdx?_eq_some_iff_getElem.mp hj
      exact absurd (Line.closes_iff.mpr hcloses)
        (hopens o (Line.opens_iff.mpr ho) _ (List.getElem_mem hlt))

theorem fencesFrom_fence (hopens : line.Opens o) (hinner : ∀ l ∈ inner, ¬l.Closes o)
    (hcloses : closing.Closes o) : fencesFrom t 0 (line :: (inner ++ closing :: after)) =
      ⟨⟨line.start, closing.stop⟩, o.quote, o.marker, o.info, t.cover inner⟩ ::
        fencesFrom t 0 after := by
  have hfirst : (inner ++ closing :: after).findIdx? o.closedBy = some inner.length := by
    have hnone : inner.findIdx? o.closedBy = none := List.findIdx?_eq_none_iff.mpr fun l hl =>
      Bool.eq_false_iff.mpr fun hclosed => hinner l hl (Line.closes_iff.mpr hclosed)
    rw [List.findIdx?_append, hnone, List.findIdx?_cons, Line.closes_iff.mp hcloses]
    simp
  have hsplit : inner ++ closing :: after = (inner ++ [closing]) ++ after := by simp
  have hskip : (inner ++ closing :: after).drop (inner.length + 1) = after := by
    rw [hsplit, List.drop_left']
    simp
  rw [fencesFrom, Line.opens_iff.mp hopens]
  simp only [hfirst]
  rw [fencesFrom_skip, hskip, List.take_left, List.getElem?_append_right (Nat.le_refl _),
    Nat.sub_self]
  rfl

/-- The fences of some lines are those that are found. -/
theorem Paired.eq (h : Paired t lines fences) : fences = fencesFrom t 0 lines := by
  induction h with
  | nil => rfl
  | free hopens _ ih => rw [fencesFrom_free hopens, ih]
  | fence hopens hinner hcloses _ ih => rw [fencesFrom_fence hopens hinner hcloses, ih]

/-- The fences that are found are those of the lines: by induction on the number of lines, with all
lines of a fence taken at once. -/
theorem paired_fencesFrom (t : Text) (lines : List Line) :
    Paired t lines (fencesFrom t 0 lines) := by
  induction hn : lines.length using Nat.strong_induction_on generalizing lines with
  | _ n ih =>
    cases lines with
    | nil => exact .nil
    | cons line rest =>
      rw [List.length_cons] at hn
      by_cases hfree : ∀ o, line.Opens o → ∀ l ∈ rest, ¬l.Closes o
      · rw [fencesFrom_free hfree]
        exact .free hfree (ih rest.length (by omega) rest rfl)
      · push Not at hfree
        obtain ⟨o, hopens, l, hl, hcloses⟩ := hfree
        have hsome : (rest.findIdx? o.closedBy).isSome := by
          rw [List.findIdx?_isSome]
          exact List.any_eq_true.mpr ⟨l, hl, Line.closes_iff.mp hcloses⟩
        obtain ⟨j, hj⟩ := Option.isSome_iff_exists.mp hsome
        obtain ⟨hlt, hclosed, hnone⟩ := List.findIdx?_eq_some_iff_getElem.mp hj
        have hsplit : rest = rest.take j ++ rest[j] :: rest.drop (j + 1) := by
          rw [List.getElem_cons_drop, List.take_append_drop]
        have hinner : ∀ l ∈ rest.take j, ¬l.Closes o := by
          intro l hl hclosed
          obtain ⟨k, hk, rfl⟩ := List.mem_take_iff_getElem.mp hl
          exact hnone k (by omega) (Line.closes_iff.mp hclosed)
        have hafter := ih (rest.drop (j + 1)).length (by rw [List.length_drop]; omega) _ rfl
        rw [hsplit, fencesFrom_fence hopens hinner (Line.closes_iff.mpr hclosed)]
        exact .fence hopens hinner (Line.closes_iff.mpr hclosed) hafter

/-- Every fence goes from a line that opens it to a later one that closes it. -/
theorem Paired.exists_lines (h : Paired t lines fences) {f : Fence} (hf : f ∈ fences) :
    ∃ opening ∈ lines, ∃ closing ∈ lines, (FenceLine.read? opening.content).isSome ∧
      (FenceLine.read? closing.content).isSome ∧ f.span = ⟨opening.start, closing.stop⟩ := by
  rw [h.eq] at hf
  obtain ⟨before, opening, inner, closing, after, rfl, -, hmade⟩ :=
    exists_madeOf_of_mem_fencesFrom hf
  exact ⟨opening, by simp, closing, by simp, hmade.opens, hmade.closes, hmade.span⟩

/-! ### Cutting lines -/

/-- A fence that goes over the cut between some lines and the ones behind them. -/
def Fence.Straddles (f : Fence) (front behind : List Line) : Prop :=
  ∃ opening ∈ front, ∃ closing ∈ behind, (FenceLine.read? opening.content).isSome ∧
    (FenceLine.read? closing.content).isSome ∧ f.span = ⟨opening.start, closing.stop⟩

theorem Line.Opens.isSome_read? (h : l.Opens o) : (FenceLine.read? l.content).isSome := by
  rw [h.1.read?]
  rfl

theorem Line.Closes.isSome_read? (h : l.Closes o) : (FenceLine.read? l.content).isSome := by
  obtain ⟨f, hwritten, -⟩ := h
  rw [hwritten.read?]
  rfl

/-- **Lines can be cut** where no fence goes over the cut. -/
theorem fencesFrom_append {front behind : List Line}
    (h : ∀ f ∈ fencesFrom t 0 (front ++ behind), ¬f.Straddles front behind) :
    fencesFrom t 0 (front ++ behind) = fencesFrom t 0 front ++ fencesFrom t 0 behind := by
  have hpaired := paired_fencesFrom t (front ++ behind)
  generalize hall : front ++ behind = all at h hpaired
  generalize fencesFrom t 0 all = fences at h hpaired
  induction hpaired generalizing front with
  | nil =>
    obtain ⟨rfl, rfl⟩ := List.append_eq_nil_iff.mp hall
    rfl
  | @free line rest fences hopens hrest ih =>
    cases front with
    | nil =>
      rw [List.nil_append] at hall
      rw [hall]
      exact (Paired.free hopens hrest).eq
    | cons first front =>
      obtain ⟨rfl, rfl⟩ := List.cons.inj hall
      rw [fencesFrom_free fun o ho l hl => hopens o ho l (List.mem_append_left _ hl)]
      refine @ih front rfl fun f hf => ?_
      rintro ⟨opening, hopening, closing, hclosing⟩
      exact h f hf ⟨opening, List.mem_cons_of_mem _ hopening, closing, hclosing⟩
  | @fence line closing inner after fences o hopens hinner hcloses hafter ih =>
    cases front with
    | nil =>
      rw [List.nil_append] at hall
      rw [hall]
      exact (Paired.fence hopens hinner hcloses hafter).eq
    | cons first front =>
      obtain ⟨rfl, hsplit⟩ := List.cons.inj hall
      have hover : closing ∉ behind := fun hclosing => h _ (List.mem_cons_self ..)
        ⟨_, List.mem_cons_self .., closing, hclosing, hopens.isSome_read?, hcloses.isSome_read?,
          rfl⟩
      rcases List.append_eq_append_iff.mp hsplit with
        ⟨inner', -, rfl⟩ | ⟨_ | ⟨_, front⟩, rfl, hafter'⟩
      · exact absurd (by simp) hover
      · obtain rfl : behind = closing :: after := hafter'.symm
        exact absurd (List.mem_cons_self ..) hover
      · -- the closing line is in front of the cut, so the whole fence is
        obtain ⟨rfl, rfl⟩ := List.cons.inj hafter'
        rw [fencesFrom_fence hopens hinner hcloses]
        refine congrArg _ (@ih front rfl fun f hf => ?_)
        rintro ⟨opening, hopening, last, hlast⟩
        exact h f (List.mem_cons_of_mem _ hf) ⟨opening, by simp [hopening], last, hlast⟩

/-! ### Copies of lines -/

/-- A copy of a line has its content, or lacks a carriage return at its end. -/
def Line.Copies (l m : Line) : Prop := m.content = l.content ∨ m.content = l.content ++ ['\r']

/-- Two fence lines that differ at most in blanks around the info string. -/
structure FenceLine.Alike (f g : FenceLine) : Prop where
  quote : f.quote = g.quote
  marker : f.marker = g.marker
  info : f.info = g.info

theorem FenceLine.Alike.refl (f : FenceLine) : f.Alike f := ⟨rfl, rfl, rfl⟩

theorem FenceLine.info_concat (quote marker tail : Text) :
    FenceLine.info ⟨quote, marker, tail ++ ['\r']⟩ = FenceLine.info ⟨quote, marker, tail⟩ :=
  Text.trim_append_right (List.forall_mem_singleton.mpr (by decide)) tail

/-- A carriage return behind a fence line belongs to what is behind the marks. -/
theorem FenceLine.written_concat {f : FenceLine} {u : Text} (h : f.Written (u ++ ['\r'])) :
    ∃ g : FenceLine, g.Written u ∧ g.Alike f := by
  obtain ⟨quote, marker, tail⟩ := f
  obtain ⟨hline, hquote, ⟨mark, n, hmark, hn, hmarker⟩, htail⟩ := h
  simp only at hline hquote hmarker htail
  rcases List.eq_nil_or_concat' tail with rfl | ⟨tail, c, rfl⟩
  · -- the last mark would be a carriage return
    have hlast := congrArg List.getLast? hline
    obtain ⟨k, rfl⟩ := Nat.exists_eq_add_of_le' hn
    rw [List.getLast?_concat, List.append_nil, hmarker, List.replicate_succ', ← List.append_assoc,
      List.getLast?_concat] at hlast
    rcases hmark with rfl | rfl <;> cases hlast
  · rw [← List.append_assoc, ← List.append_assoc] at hline
    obtain ⟨hu, hc⟩ := List.append_inj' hline rfl
    obtain rfl : '\r' = c := (List.cons.inj hc).1
    refine ⟨⟨quote, marker, tail⟩, ⟨by rw [hu, List.append_assoc], hquote,
      ⟨mark, n, hmark, hn, hmarker⟩, ?_⟩, rfl, rfl, (FenceLine.info_concat ..).symm⟩
    obtain ⟨k, rfl⟩ := Nat.exists_eq_add_of_le' hn
    cases tail with
    | nil => simp [hmarker, List.replicate_succ]
    | cons c tail => exact htail

theorem FenceLine.Written.concat {g : FenceLine} {u : Text} (h : g.Written u) :
    ∃ f : FenceLine, f.Written (u ++ ['\r']) ∧ g.Alike f := by
  obtain ⟨quote, marker, tail⟩ := g
  obtain ⟨rfl, hquote, ⟨mark, n, hmark, hn, hmarker⟩, htail⟩ := h
  simp only at hquote hmarker htail
  refine ⟨⟨quote, marker, tail ++ ['\r']⟩, ⟨by simp, hquote, ⟨mark, n, hmark, hn, hmarker⟩, ?_⟩,
    rfl, rfl, (FenceLine.info_concat ..).symm⟩
  obtain ⟨k, rfl⟩ := Nat.exists_eq_add_of_le' hn
  cases tail with
  | nil =>
    simp only [hmarker, List.nil_append, List.head?_cons, List.replicate_succ]
    rcases hmark with rfl | rfl <;> decide
  | cons c tail => exact htail

namespace Line.Copies

variable {o' : FenceLine}

theorem of_written (h : l.Copies m) (ho : o.Written m.content) :
    ∃ o' : FenceLine, o'.Written l.content ∧ o'.Alike o := by
  rcases h with h | h
  · exact ⟨o, h ▸ ho, .refl o⟩
  · exact FenceLine.written_concat (h ▸ ho)

theorem written (h : l.Copies m) (ho : o'.Written l.content) :
    ∃ o : FenceLine, o.Written m.content ∧ o'.Alike o := by
  rcases h with h | h
  · exact ⟨o', h ▸ ho, .refl o'⟩
  · rw [h]
    exact ho.concat

/-- A copy opens what the line opens. -/
theorem of_opens (h : l.Copies m) (ho : m.Opens o) :
    ∃ o' : FenceLine, l.Opens o' ∧ o'.Alike o := by
  obtain ⟨o', hwritten, halike⟩ := h.of_written ho.1
  refine ⟨o', ⟨hwritten, ?_⟩, halike⟩
  rw [FenceLine.MayOpen, halike.marker, halike.info]
  exact ho.2

theorem opens (h : l.Copies m) (ho : l.Opens o') : ∃ o : FenceLine, m.Opens o ∧ o'.Alike o := by
  obtain ⟨o, hwritten, halike⟩ := h.written ho.1
  refine ⟨o, ⟨hwritten, ?_⟩, halike⟩
  rw [FenceLine.MayOpen, ← halike.marker, ← halike.info]
  exact ho.2

/-- A copy closes what the line closes. -/
theorem closes_iff (h : l.Copies m) (halike : o'.Alike o) : l.Closes o' ↔ m.Closes o := by
  constructor
  · rintro ⟨f, hwritten, hdepth, hmark, hlength, hblank⟩
    obtain ⟨g, hwritten', hsame⟩ := h.written hwritten
    exact ⟨g, hwritten', by rw [← hsame.quote, ← halike.quote, hdepth],
      by rw [← hsame.marker, ← halike.marker, hmark], by rwa [← hsame.marker, ← halike.marker],
      by rw [← hsame.info, hblank]⟩
  · rintro ⟨g, hwritten, hdepth, hmark, hlength, hblank⟩
    obtain ⟨f, hwritten', hsame⟩ := h.of_written hwritten
    exact ⟨f, hwritten', by rw [hsame.quote, halike.quote, hdepth],
      by rw [hsame.marker, halike.marker, hmark], by rwa [hsame.marker, halike.marker],
      by rw [hsame.info, hblank]⟩

end Line.Copies

/-! ### Fences of copied lines -/

/-- What a fence is opened with. -/
def Fence.beginning (f : Fence) : Text × Text × Text := (f.quote, f.marker, f.info)

/-- Fences that begin alike, in order, and shield the same lines. -/
structure SameFences (fs gs : List Fence) (ls ms : List Line) : Prop where
  beginnings : fs.map Fence.beginning = gs.map Fence.beginning
  fenced : ls.map (fun l => isFenced fs l.start) = ms.map fun m => isFenced gs m.start

/-- A line in front of others is in none of their fences. -/
theorem Paired.fenced_free (h : Paired t rest fences)
    (hsorted : (line :: rest).Pairwise fun a b => a.stop < b.start) :
    (line :: rest).map (fun l => isFenced fences l.start) =
      false :: rest.map fun l => isFenced fences l.start := by
  rw [List.map_cons]
  congr 1
  refine List.any_eq_false.mpr fun f hf => ?_
  obtain ⟨opening, hopening, closing, -, -, -, hspan⟩ := h.exists_lines hf
  have := (List.pairwise_cons.mp hsorted).1 opening hopening
  have := line.start_le_stop
  simp only [hspan, Span.contains, Bool.and_eq_true, decide_eq_true_eq]
  omega

/-- A fence shields its own lines, and those behind it are shielded by the other ones. -/
theorem fenced_fence {quote marker info body : Text} (hcloses : closing.Closes o)
    (hsorted : (line :: (inner ++ closing :: after)).Pairwise fun a b => a.stop < b.start) :
    (line :: (inner ++ closing :: after)).map (fun l =>
        isFenced (⟨⟨line.start, closing.stop⟩, quote, marker, info, body⟩ :: fences) l.start) =
      List.replicate (inner.length + 2) true ++ after.map fun l => isFenced fences l.start := by
  have hsplit : line :: (inner ++ closing :: after) = (line :: inner ++ [closing]) ++ after := by
    simp
  rw [hsplit, List.map_append]
  congr 1
  · refine List.eq_replicate_iff.mpr ⟨by simp, fun b hb => ?_⟩
    obtain ⟨l, hl, rfl⟩ := List.mem_map.mp hb
    have hstart := first_start_le hsorted (hsplit ▸ List.mem_append_left after hl)
    have hstop := start_lt_closing hsorted hcloses hl
    simp [isFenced, Span.contains, hstart, hstop]
  · have htail := (List.pairwise_append.mp (List.cons_append ▸ hsorted)).2.1
    refine List.map_congr_left fun l hl => ?_
    have := (List.pairwise_cons.mp htail).1 l hl
    simp [isFenced, Span.contains, Nat.le_of_lt this]

/-- If no line closes a fence, no copy does. -/
theorem not_closes_of_copies {o' : FenceLine} (h : List.Forall₂ Line.Copies ls ms)
    (halike : o'.Alike o) (hms : ∀ m ∈ ms, ¬m.Closes o) : ∀ l ∈ ls, ¬l.Closes o' := by
  induction h with
  | nil => exact List.forall_mem_nil _
  | cons hcopy _ ih =>
    obtain ⟨hm, hms⟩ := List.forall_mem_cons.mp hms
    exact List.forall_mem_cons.mpr
      ⟨fun hcloses => hm ((hcopy.closes_iff halike).mp hcloses), ih hms⟩

theorem forall₂_append_right {α β : Type} {R : α → β → Prop} {xs : List α} {ys zs : List β}
    (h : List.Forall₂ R xs (ys ++ zs)) :
    ∃ us vs, xs = us ++ vs ∧ List.Forall₂ R us ys ∧ List.Forall₂ R vs zs :=
  ⟨_, _, (List.take_append_drop _ _).symm, List.forall₂_take_append _ _ _ h,
    List.forall₂_drop_append _ _ _ h⟩

/-- **Copied lines have the fences of the lines**, whatever text they stand in. -/
theorem Paired.copied (h : Paired t ms gs) (hcopies : List.Forall₂ Line.Copies ls ms)
    (hls : ls.Pairwise fun a b => a.stop < b.start)
    (hms : ms.Pairwise fun a b => a.stop < b.start) : SameFences (fencesFrom s 0 ls) gs ls ms := by
  induction h generalizing ls with
  | nil =>
    cases hcopies
    exact ⟨rfl, rfl⟩
  | @free line rest fences hopens hrest ih =>
    obtain ⟨line', rest', hline, hcopies', rfl⟩ := List.forall₂_cons_right_iff.mp hcopies
    have hsame := ih hcopies' (List.pairwise_cons.mp hls).2 (List.pairwise_cons.mp hms).2
    have hfree : ∀ o', line'.Opens o' → ∀ l ∈ rest', ¬l.Closes o' := by
      intro o' ho'
      obtain ⟨o, ho, halike⟩ := hline.opens ho'
      exact not_closes_of_copies hcopies' halike (hopens o ho)
    rw [fencesFrom_free hfree]
    refine ⟨hsame.beginnings, ?_⟩
    rw [(paired_fencesFrom s rest').fenced_free hls, hrest.fenced_free hms, hsame.fenced]
  | @fence line closing inner after fences o hopens hinner hcloses hafter ih =>
    obtain ⟨line', behind, hline, hbehind, rfl⟩ := List.forall₂_cons_right_iff.mp hcopies
    obtain ⟨inner', last, rfl, hinner', hlast⟩ := forall₂_append_right hbehind
    obtain ⟨closing', after', hclosing, hafter', rfl⟩ := List.forall₂_cons_right_iff.mp hlast
    have hsorted := (List.pairwise_append.mp (List.pairwise_cons.mp hls).2).2.1
    have hsorted' := (List.pairwise_append.mp (List.pairwise_cons.mp hms).2).2.1
    have hsame := ih hafter' (List.pairwise_cons.mp hsorted).2 (List.pairwise_cons.mp hsorted').2
    obtain ⟨o', ho', halike⟩ := hline.of_opens hopens
    have hcloses' := (hclosing.closes_iff halike).mpr hcloses
    rw [fencesFrom_fence ho' (not_closes_of_copies hinner' halike hinner) hcloses']
    refine ⟨?_, ?_⟩
    · rw [List.map_cons, List.map_cons, hsame.beginnings, Fence.beginning, Fence.beginning,
        halike.quote, halike.marker, halike.info]
    · rw [fenced_fence hcloses' hls, fenced_fence hcloses hms, hsame.fenced, hinner'.length_eq]

/-! ### Lines put together -/

/-- A piece is a line, or a line and a carriage return. -/
theorem copies_dropCarriageReturn (pos : Nat) (m : Line) :
    Line.Copies ⟨pos, dropCarriageReturn m.content⟩ m := by
  obtain ⟨brk, hbreak, hsplit⟩ := exists_lineBreak m.content
  cases hbreak with
  | lineFeed => exact .inl (List.append_cancel_right hsplit)
  | carriageReturn =>
    have hreturn : m.content ++ ['\n'] = dropCarriageReturn m.content ++ ['\r'] ++ ['\n'] := by
      rw [hsplit, List.append_assoc]
      rfl
    exact .inr (List.append_cancel_right hreturn)

theorem copies_linesOfPieces (pos : Nat) (hlast : ∀ m, ms.getLast? = some m → m.content ≠ []) :
    List.Forall₂ Line.Copies (linesOfPieces pos (ms.map (·.content))) ms := by
  induction ms generalizing pos with
  | nil => exact .nil
  | cons m rest ih =>
    cases rest with
    | nil =>
      rw [List.map_singleton, linesOfPieces, if_neg (hlast m rfl)]
      exact .cons (.inl rfl) .nil
    | cons next rest =>
      exact .cons (copies_dropCarriageReturn pos m) (ih _ fun m hm => hlast m (by simpa using hm))

/-- **Lines that are put together** are copied, if the last one is not empty. -/
theorem copies_lines_unlines (hfree : ∀ m ∈ ms, '\n' ∉ m.content)
    (hlast : ∀ m, ms.getLast? = some m → m.content ≠ []) :
    List.Forall₂ Line.Copies (Text.unlines (ms.map (·.content))).lines ms := by
  cases ms with
  | nil => exact .nil
  | cons m rest =>
    have hpieces : (Text.unlines ((m :: rest).map (·.content))).breakLines =
        (m :: rest).map (·.content) :=
      List.splitOn_intercalate '\n' (by simpa using hfree) (by simp)
    rw [Text.lines, hpieces]
    exact copies_linesOfPieces 0 hlast

end NotePress
