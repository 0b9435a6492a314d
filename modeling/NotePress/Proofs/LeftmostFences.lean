import NotePress.Proofs.Edits
import NotePress.Proofs.Fencing

/-!
# The fences of a text are the leftmost ones

What a fence is, said of the lines of the text as they are written: `FenceLine.Written` is the
grammar of a line that can open or close one, `Fence.Within` a fence between two such lines, and
`FencedBy` says which fences a text has. The first line that may open a fence and finds a line that
closes it does open one, and so on behind that line; no other line opens any.

`leftmost_fences` says that this determines the fences, and that it is what `Text.fences` gives. The
proof follows the lines from the front: a first line that opens nothing does not matter
(`fencedBy_cons_iff`), and one that opens a fence is its first one (`fencedBy_fence_iff`).
-/

namespace NotePress

/-! ### Fence lines -/

namespace FenceLine

variable {f opening closing : FenceLine} {line : Text}

/-- **How a fence line is written**: blanks and quote marks, a run of at least three backticks or
tildes, and what is left, which does not go on with the run. -/
structure Written (f : FenceLine) (line : Text) : Prop where
  line_eq : line = f.quote ++ (f.marker ++ f.tail)
  quote : ∀ x ∈ f.quote, x = ' ' ∨ x = '\t' ∨ x = '>'
  marker : ∃ mark n, (mark = '\x60' ∨ mark = '~') ∧ 3 ≤ n ∧ f.marker = List.replicate n mark
  tail : f.tail.head? ≠ f.marker.head?

/-- A fence of backticks has none in its info string. -/
def MayOpen (f : FenceLine) : Prop := f.marker.head? = some '\x60' → '\x60' ∉ f.info

/-- **How a fence is closed**: in the same quote depth, by at least as many of the same marks, with
nothing behind them. -/
structure ClosedBy (opening closing : FenceLine) : Prop where
  depth : quoteMarks closing.quote = quoteMarks opening.quote
  mark : closing.marker.head? = opening.marker.head?
  length : opening.marker.length ≤ closing.marker.length
  blank : closing.info = []

theorem isQuoteChar_iff {x : Char} : isQuoteChar x = true ↔ x = ' ' ∨ x = '\t' ∨ x = '>' := by
  simp [isQuoteChar, isSpaceTab, or_assoc]

theorem written_of_read? (h : read? line = some f) : f.Written line := by
  unfold read? at h
  simp only at h
  split at h
  · cases h
  · rename_i mark rest hrest
    split at h
    · rename_i hmark
      cases h
      obtain ⟨hsplit, hquote⟩ := eq_append_of_takeWhile (p := isQuoteChar) (t := line) rfl hrest
      obtain ⟨hrun, hsame⟩ := eq_append_of_takeWhile (p := (· = mark)) (t := mark :: rest) rfl rfl
      refine ⟨?_, fun x hx => isQuoteChar_iff.mp (hquote x hx), ⟨mark, _, hmark.1, hmark.2,
        List.eq_replicate_iff.mpr ⟨rfl, fun x hx => by
          rw [hrest] at hx
          simpa using hsame x hx⟩⟩, ?_⟩
      · rw [hrest, ← hrun]
        exact hsplit
      · rw [hrest, List.takeWhile_cons_of_pos (by simp), List.head?_cons]
        have hnot := List.head?_dropWhile_not (· = mark) (mark :: rest)
        intro hhead
        rw [hhead] at hnot
        simp at hnot
    · cases h

theorem Written.read? (h : f.Written line) : read? line = some f := by
  obtain ⟨quote, marker, tail⟩ := f
  obtain ⟨rfl, hquote, ⟨mark, n, hmark, hn, hmarker⟩, htail⟩ := h
  simp only at hquote hmarker htail ⊢
  subst hmarker
  obtain ⟨m, rfl⟩ := Nat.exists_eq_add_of_le' hn
  have hquoteAll : ∀ x ∈ quote, isQuoteChar x = true := fun x hx => isQuoteChar_iff.mpr (hquote x hx)
  have hnotQuote : isQuoteChar mark = false := by
    rcases hmark with rfl | rfl <;> rfl
  have hrun : List.replicate (m + 3) mark ++ tail = mark :: (List.replicate (m + 2) mark ++ tail) := by
    rw [List.replicate_succ]
    rfl
  have hall : ∀ x ∈ List.replicate (m + 3) mark, decide (x = mark) = true := fun x hx => by
    simpa using List.eq_of_mem_replicate hx
  have hstop : tail.takeWhile (· = mark) = [] ∧ tail.dropWhile (· = mark) = tail := by
    cases tail with
    | nil => exact ⟨rfl, rfl⟩
    | cons x rest =>
      have hne : ¬decide (x = mark) = true := by
        rintro heq
        refine htail ?_
        rw [of_decide_eq_true heq]
        rfl
      exact ⟨List.takeWhile_cons_of_neg hne, List.dropWhile_cons_of_neg hne⟩
  unfold FenceLine.read?
  rw [List.takeWhile_append_of_pos hquoteAll, List.dropWhile_append_of_pos hquoteAll, hrun,
    List.takeWhile_cons_of_neg (by simp [hnotQuote]),
    List.dropWhile_cons_of_neg (by simp [hnotQuote]), List.append_nil]
  simp only
  rw [← hrun, List.takeWhile_append_of_pos hall, List.dropWhile_append_of_pos hall, hstop.1,
    hstop.2, List.append_nil, if_pos ⟨hmark, by simp⟩]

/-- **Reading a fence line.** -/
theorem read?_eq_some_iff : FenceLine.read? line = some f ↔ f.Written line :=
  ⟨written_of_read?, Written.read?⟩

theorem Written.unique {f' : FenceLine} (h : f.Written line) (h' : f'.Written line) : f = f' :=
  Option.some.inj (h.read?.symm.trans h'.read?)

theorem opens_iff : f.opens = true ↔ f.MayOpen := by
  unfold opens MayOpen
  by_cases h : f.marker.head? = some '\x60' <;> simp [h]

theorem closes_iff : opening.closes closing = true ↔ opening.ClosedBy closing := by
  unfold closes
  simp only [Bool.and_eq_true, decide_eq_true_eq, List.isEmpty_iff]
  constructor
  · rintro ⟨⟨⟨hdepth, hblank⟩, hlength⟩, hmark⟩
    exact ⟨hdepth, hmark, hlength, hblank⟩
  · rintro ⟨hdepth, hmark, hlength, hblank⟩
    exact ⟨⟨⟨hdepth, hblank⟩, hlength⟩, hmark⟩

end FenceLine

namespace Line

variable {l : Line} {o : FenceLine}

/-- A line may open a fence. -/
def Opens (l : Line) (o : FenceLine) : Prop := o.Written l.content ∧ o.MayOpen

/-- A line closes a fence. -/
def Closes (l : Line) (o : FenceLine) : Prop := ∃ f, f.Written l.content ∧ o.ClosedBy f

theorem opens_iff : l.Opens o ↔ (FenceLine.read? l.content).filter (·.opens) = some o := by
  rw [Option.filter_eq_some_iff, FenceLine.read?_eq_some_iff, FenceLine.opens_iff]
  rfl

theorem Opens.unique {o' : FenceLine} (h : l.Opens o) (h' : l.Opens o') : o = o' := h.1.unique h'.1

theorem closes_iff : l.Closes o ↔ o.closedBy l = true := by
  unfold Closes FenceLine.closedBy
  cases hread : FenceLine.read? l.content with
  | none =>
    refine iff_of_false ?_ Bool.false_ne_true
    rintro ⟨f, hwritten, -⟩
    rw [hwritten.read?] at hread
    cases hread
  | some f =>
    rw [FenceLine.closes_iff]
    constructor
    · rintro ⟨f', hwritten, hclosed⟩
      rwa [(FenceLine.read?_eq_some_iff.mp hread).unique hwritten]
    · exact fun hclosed => ⟨f, FenceLine.read?_eq_some_iff.mp hread, hclosed⟩

theorem start_le_stop (l : Line) : l.start ≤ l.stop := Nat.le_add_right _ _

/-- A line that opens or closes a fence is not empty. -/
theorem start_lt_stop {f : FenceLine} (h : f.Written l.content) : l.start < l.stop := by
  obtain ⟨mark, n, -, hn, hmarker⟩ := h.marker
  have hlength := congrArg List.length h.line_eq
  rw [List.length_append, List.length_append, hmarker, List.length_replicate] at hlength
  unfold stop
  omega

end Line

/-! ### Fences of a text -/

/-- What a fence holds: the text from the first of its inner lines to the closing line, without the
last line break in it; nothing if there are no inner lines. -/
inductive Text.BodyOf (t : Text) : List Line → Line → Text → Prop where
  | none {closing : Line} : BodyOf t [] closing []
  | lines {inner : List Line} {first last closing : Line} {body brk : Text}
      (hfirst : inner.head? = some first) (hlast : inner.getLast? = some last)
      (hbreak : LineBreak last.content brk) (hstop : last.stop + brk.length = closing.start)
      (htext : t.slice first.start closing.start = body ++ brk) : BodyOf t inner closing body

/-- **A fence within some lines**: from a line that may open it to the first later one that closes
it. -/
inductive Fence.Within (t : Text) (lines : List Line) : Fence → Prop where
  | mk {before inner after : List Line} {opening closing : Line} {o : FenceLine} {body : Text}
      (hlines : lines = before ++ opening :: (inner ++ closing :: after))
      (hopens : opening.Opens o) (hinner : ∀ l ∈ inner, ¬l.Closes o) (hcloses : closing.Closes o)
      (hbody : t.BodyOf inner closing body) :
      Within t lines ⟨⟨opening.start, closing.stop⟩, o.quote, o.marker, o.info, body⟩

/-- **The fences of some lines**: they are in order and apart, and a line outside of them that may
open a fence has no line behind it that closes one. -/
structure FencedBy (t : Text) (lines : List Line) (fences : List Fence) : Prop where
  order : fences.Pairwise fun a b => a.span.stop < b.span.start
  within : ∀ f ∈ fences, f.Within t lines
  maximal : ∀ before l after o, lines = before ++ l :: after → isFenced fences l.start = false →
    l.Opens o → ∀ l' ∈ after, ¬l'.Closes o

variable {t : Text} {line opening closing : Line} {lines inner after rest : List Line}
  {fences : List Fence} {o : FenceLine} {body : Text}

theorem Text.BodyOf.unique {body' : Text} (h : t.BodyOf inner closing body)
    (h' : t.BodyOf inner closing body') : body = body' := by
  cases h with
  | none =>
    cases h' with
    | none => rfl
    | lines hfirst => cases hfirst
  | lines hfirst hlast hbreak hstop htext =>
    cases h' with
    | none => cases hfirst
    | lines hfirst' hlast' hbreak' hstop' htext' =>
      cases hfirst.symm.trans hfirst'
      cases hlast.symm.trans hlast'
      rw [htext] at htext'
      exact (List.append_inj' htext' (by omega)).1

/-- The text from the first to the last of the inner lines is what the fence holds. -/
theorem bodyOf_cover {pos : Nat} {before : List Line}
    (h : t.LinedFrom pos (before ++ (inner ++ closing :: after))) :
    t.BodyOf inner closing (t.cover inner) := by
  rcases hinner : inner.head? with _ | first
  · obtain rfl := List.head?_eq_none_iff.mp hinner
    exact .none
  · obtain ⟨front, last, rfl⟩ := (List.eq_nil_or_concat' inner).resolve_left (by
      rintro rfl
      cases hinner)
    have hlast : (front ++ [last]).getLast? = some last := List.getLast?_concat
    have hmiddle : before ++ (front ++ [last] ++ closing :: after) =
        before ++ front ++ last :: closing :: after := by simp
    rw [hmiddle] at h
    obtain ⟨brk, hbreak, hstop, hslice⟩ := h.exists_break
    have hle : first.start ≤ last.stop := by
      have hpairs := h.laid.pairwise
      cases front with
      | nil =>
        cases hinner
        exact first.start_le_stop
      | cons head rest =>
        cases hinner
        have := (List.pairwise_append.mp hpairs).2.2 first (by simp) last (by simp)
        unfold Line.stop at *
        omega
    refine .lines hinner hlast hbreak hstop ?_
    rw [Text.cover, hinner, hlast, ← hslice, Text.slice_append_slice t hle (by omega)]

/-! ### One line after another -/

/-- Where a line stands in a list that is put together. -/
theorem split_behind {α : Type} {front behind before after : List α} {a : α}
    (h : front ++ behind = before ++ a :: after) :
    a ∈ front ∨ ∃ before', before = front ++ before' ∧ behind = before' ++ a :: after := by
  rcases List.append_eq_append_iff.mp h with ⟨rest, rfl, hrest⟩ | ⟨rest, rfl, hrest⟩
  · exact .inr ⟨rest, rfl, hrest⟩
  · cases rest with
    | nil => exact .inr ⟨[], by simp, hrest.symm⟩
    | cons b rest =>
      cases hrest
      exact .inl (by simp)

/-- Lines in front do not matter to a fence. -/
theorem Fence.Within.append_left {f : Fence} (h : f.Within t lines) (front : List Line) :
    f.Within t (front ++ lines) := by
  cases h with
  | @mk before inner after opening closing _ _ hlines hopens hinner hcloses hbody =>
    have hfront : front ++ lines = front ++ before ++ opening :: (inner ++ closing :: after) := by
      rw [hlines, List.append_assoc]
    exact .mk hfront hopens hinner hcloses hbody

theorem fencedBy_nil : FencedBy t [] fences ↔ fences = [] := by
  constructor
  · intro h
    refine List.eq_nil_iff_forall_not_mem.mpr fun f hf => ?_
    cases h.within f hf with
    | mk hlines => simp at hlines
  · rintro rfl
    exact ⟨.nil, by simp, fun before l after o hlines => absurd hlines (by simp)⟩

/-- **A first line that opens no fence** does not matter. -/
theorem fencedBy_cons_iff (hopens : ∀ o, line.Opens o → ∀ l ∈ rest, ¬l.Closes o) :
    FencedBy t (line :: rest) fences ↔ FencedBy t rest fences := by
  constructor
  · intro h
    refine ⟨h.order, fun f hf => ?_, fun before l after o hlines => ?_⟩
    · cases h.within f hf with
      | @mk before inner after opening closing o body hlines hopening hinner hcloses hbody =>
        cases before with
        | nil =>
          cases hlines
          exact absurd hcloses (hopens o hopening closing (by simp))
        | cons first before =>
          cases hlines
          exact .mk rfl hopening hinner hcloses hbody
    · exact h.maximal (line :: before) l after o (by rw [hlines]; rfl)
  · intro h
    refine ⟨h.order, fun f hf => (h.within f hf).append_left [line],
      fun before l after o hlines => ?_⟩
    · cases before with
      | nil =>
        cases hlines
        exact fun _ => hopens o
      | cons first before =>
        cases hlines
        exact h.maximal before l after o rfl

/-- What a fence within some lines spans. -/
theorem Fence.Within.exists_lines {f : Fence} (h : f.Within t lines) :
    ∃ opening ∈ lines, ∃ closing ∈ lines, f.span = ⟨opening.start, closing.stop⟩ := by
  cases h with
  | @mk before inner after opening closing _ _ hlines =>
    exact ⟨opening, by simp [hlines], closing, by simp [hlines], rfl⟩

/-- The lines of a first fence do not matter to the other ones. -/
theorem fencedBy_append_iff {f : Fence} {front : List Line} {later : List Fence}
    (hwithin : f.Within t (front ++ after))
    (hfront : ∀ l ∈ front, f.span.start ≤ l.start ∧ l.start < f.span.stop)
    (hafter : ∀ l ∈ after, f.span.stop < l.start) :
    FencedBy t (front ++ after) (f :: later) ↔ FencedBy t after later := by
  constructor
  · intro h
    obtain ⟨hlater, horder⟩ := List.pairwise_cons.mp h.order
    refine ⟨horder, fun g hg => ?_, fun before l after' o hlines hout => ?_⟩
    · have hgap := hlater g hg
      cases h.within g (List.mem_cons_of_mem _ hg) with
      | mk hlines hopens hinner hcloses hbody =>
        rcases split_behind hlines with hmem | ⟨before, -, rfl⟩
        · have := (hfront _ hmem).2
          simp only at hgap
          omega
        · exact .mk rfl hopens hinner hcloses hbody
    · refine h.maximal (front ++ before) l after' o (by rw [hlines, List.append_assoc]) ?_
      have hgap := hafter l (by simp [hlines])
      rw [isFenced, List.any_cons, Bool.or_eq_false_iff]
      exact ⟨by simp [Span.contains, Nat.le_of_lt hgap], hout⟩
  · intro h
    refine ⟨List.pairwise_cons.mpr ⟨fun g hg => ?_, h.order⟩, fun g hg => ?_,
      fun before l after' o hlines hout => ?_⟩
    · obtain ⟨opening, hopening, last, -, hspan⟩ := (h.within g hg).exists_lines
      rw [hspan]
      exact hafter opening hopening
    · rcases List.mem_cons.mp hg with rfl | hg
      · exact hwithin
      · exact (h.within g hg).append_left front
    · rw [isFenced, List.any_cons, Bool.or_eq_false_iff] at hout
      rcases split_behind hlines with hmem | ⟨before', -, hbehind⟩
      · have := hfront l hmem
        simp [Span.contains, this.1] at hout
        omega
      · exact h.maximal before' l after' o hbehind hout.2

section FirstFence

variable (hsorted : (line :: (inner ++ closing :: after)).Pairwise fun a b => a.stop < b.start)
  (hopens : line.Opens o) (hinner : ∀ l ∈ inner, ¬l.Closes o) (hcloses : closing.Closes o)
  (hbody : t.BodyOf inner closing body)

include hsorted

/-- No line starts in front of the first one. -/
theorem first_start_le {l : Line} (hl : l ∈ line :: (inner ++ closing :: after)) :
    line.start ≤ l.start := by
  rcases List.mem_cons.mp hl with rfl | hl
  · exact Nat.le_refl _
  · exact Nat.le_trans line.start_le_stop
      (Nat.le_of_lt ((List.pairwise_cons.mp hsorted).1 l hl))

include hcloses in
/-- The lines from the first one to the closing one start in what they span. -/
theorem start_lt_closing {l : Line} (hl : l ∈ line :: inner ++ [closing]) :
    l.start < closing.stop := by
  obtain ⟨f, hwritten, -⟩ := hcloses
  have hclosing := Line.start_lt_stop hwritten
  have hbefore : ∀ l ∈ line :: inner, l.stop < closing.start := fun l hl =>
    (List.pairwise_append.mp (List.cons_append ▸ hsorted)).2.2 l hl closing (List.mem_cons_self ..)
  rcases List.mem_append.mp hl with hl | hl
  · have := hbefore l hl
    have := l.start_le_stop
    omega
  · rwa [List.mem_singleton.mp hl]

include hopens hinner hcloses hbody

/-- The first fence starts with the first line. -/
theorem FencedBy.exists_later (h : FencedBy t (line :: (inner ++ closing :: after)) fences) :
    ∃ later,
      fences = ⟨⟨line.start, closing.stop⟩, o.quote, o.marker, o.info, body⟩ :: later := by
  -- the line is in a fence, since it may open one and is closed
  obtain ⟨f, hf, hstart, hstop⟩ :
      ∃ f ∈ fences, f.span.start ≤ line.start ∧ line.start < f.span.stop := by
    by_contra hnone
    refine h.maximal [] line _ o rfl ?_ hopens closing (by simp) hcloses
    rw [Bool.eq_false_iff]
    exact fun hfenced => hnone (by simpa [isFenced, Span.contains] using hfenced)
  -- that fence starts with the line, so it is the one it opens
  have heq : f = ⟨⟨line.start, closing.stop⟩, o.quote, o.marker, o.info, body⟩ := by
    cases h.within f hf with
    | @mk before inner' after' opening closing' o' body' hlines hopens' hinner' hcloses'
        hbody' =>
      cases before with
      | nil =>
        obtain ⟨rfl, hbehindLine⟩ := List.cons.inj hlines
        obtain rfl := hopens.unique hopens'
        obtain ⟨rfl, rfl, rfl⟩ :=
          eq_of_first (P := (·.Closes o)) hinner hinner' hcloses hcloses' hbehindLine
        rw [hbody.unique hbody']
      | cons first before =>
        obtain ⟨rfl, hbehindLine⟩ := List.cons.inj hlines
        have := (List.pairwise_cons.mp hsorted).1 opening (by simp [hbehindLine])
        have := line.start_le_stop
        simp only at hstart
        omega
  subst heq
  obtain ⟨earlier, later, rfl⟩ := List.append_of_mem hf
  -- no fence comes before it, since no line does
  have hearlier : earlier = [] := by
    refine List.eq_nil_iff_forall_not_mem.mpr fun g hg => ?_
    obtain ⟨opening, -, last, hlast, hspan⟩ :=
      (h.within g (List.mem_append_left _ hg)).exists_lines
    have hlt := (List.pairwise_append.mp h.order).2.2 g hg _ (List.mem_cons_self ..)
    rw [hspan] at hlt
    have := first_start_le hsorted hlast
    have := last.start_le_stop
    simp only at hlt
    omega
  exact ⟨later, by rw [hearlier, List.nil_append]⟩

/-- **A first line that opens a fence** is where the first one starts, and the others are those of
the lines behind it. -/
theorem fencedBy_fence_iff :
    FencedBy t (line :: (inner ++ closing :: after)) fences ↔
      ∃ later, fences = ⟨⟨line.start, closing.stop⟩, o.quote, o.marker, o.info, body⟩ :: later ∧
        FencedBy t after later := by
  have hlines : line :: (inner ++ closing :: after) = (line :: inner ++ [closing]) ++ after := by
    simp
  have hfirst : Fence.Within t (line :: (inner ++ closing :: after))
      ⟨⟨line.start, closing.stop⟩, o.quote, o.marker, o.info, body⟩ :=
    .mk (List.nil_append _).symm hopens hinner hcloses hbody
  have hfront : ∀ l ∈ line :: inner ++ [closing], line.start ≤ l.start ∧ l.start < closing.stop :=
    fun l hl => ⟨first_start_le hsorted (hlines ▸ List.mem_append_left after hl),
      start_lt_closing hsorted hcloses hl⟩
  have hafter : ∀ l ∈ after, closing.stop < l.start := by
    have htail := (List.pairwise_append.mp (List.cons_append ▸ hsorted)).2.1
    exact (List.pairwise_cons.mp htail).1
  constructor
  · intro h
    obtain ⟨later, rfl⟩ := h.exists_later hsorted hopens hinner hcloses hbody
    rw [hlines] at h hfirst
    exact ⟨later, rfl, (fencedBy_append_iff hfirst hfront hafter).mp h⟩
  · rintro ⟨later, rfl, h⟩
    rw [hlines] at hfirst ⊢
    exact (fencedBy_append_iff hfirst hfront hafter).mpr h

end FirstFence

/-! ### All fences -/

/-- The lines that belong to the last fence are passed over. -/
theorem fencesFrom_skip (t : Text) (skip : Nat) (lines : List Line) :
    fencesFrom t skip lines = fencesFrom t 0 (lines.drop skip) := by
  induction skip generalizing lines with
  | zero => rfl
  | succ skip ih =>
    cases lines with
    | nil => rfl
    | cons line rest => exact ih rest

/-- **The fences of some lines are those that are found**: by induction on the number of lines, with
all lines of a fence taken at once. -/
theorem fencedBy_iff {pos : Nat} (h : t.LinedFrom pos lines) :
    FencedBy t lines fences ↔ fences = fencesFrom t 0 lines := by
  induction hn : lines.length using Nat.strong_induction_on generalizing pos lines fences with
  | _ n ih =>
    cases lines with
    | nil => exact fencedBy_nil
    | cons line rest =>
      rw [List.length_cons] at hn
      obtain ⟨pos', hrest⟩ := (show t.LinedFrom pos ([line] ++ rest) from h).append_right
      rw [fencesFrom]
      split
      · rename_i hopens
        rw [fencedBy_cons_iff, ih rest.length (by omega) hrest rfl]
        intro o hline
        rw [Line.opens_iff.mp hline] at hopens
        cases hopens
      · rename_i o hopens
        have hopens := Line.opens_iff.mpr hopens
        split
        · rename_i hnone
          rw [fencedBy_cons_iff, ih rest.length (by omega) hrest rfl]
          intro o' hopens' l hl hcloses
          rw [← hopens.unique hopens', Line.closes_iff,
            List.findIdx?_eq_none_iff.mp hnone l hl] at hcloses
          cases hcloses
        · rename_i j hj
          obtain ⟨hlt, hcloses, hnone⟩ := List.findIdx?_eq_some_iff_getElem.mp hj
          have hsplit : rest = rest.take j ++ rest[j] :: rest.drop (j + 1) := by
            rw [List.getElem_cons_drop, List.take_append_drop]
          obtain ⟨_, hafter⟩ : ∃ pos', t.LinedFrom pos' (rest.drop (j + 1)) := by
            rw [← List.take_append_drop (j + 1) rest] at hrest
            exact hrest.append_right
          have hfence := @fencedBy_fence_iff t line rest[j] (rest.take j) (rest.drop (j + 1)) fences
            o (t.cover (rest.take j))
          rw [← hsplit] at hfence
          rw [hfence h.laid.pairwise hopens ?_ (Line.closes_iff.mpr hcloses) ?_, fencesFrom_skip,
            List.getElem?_eq_getElem hlt]
          · constructor
            · rintro ⟨later, rfl, hlater⟩
              rw [(ih _ (by rw [List.length_drop]; omega) hafter rfl).mp hlater]
              rfl
            · rintro rfl
              exact ⟨_, rfl, (ih _ (by rw [List.length_drop]; omega) hafter rfl).mpr rfl⟩
          · intro l hl hclosed
            obtain ⟨k, hk, rfl⟩ := List.mem_take_iff_getElem.mp hl
            exact hnone k (by omega) (Line.closes_iff.mp hclosed)
          · have hlines : t.LinedFrom pos
                ([line] ++ (rest.take j ++ rest[j] :: rest.drop (j + 1))) := by
              rw [← hsplit]
              exact h
            exact bodyOf_cover hlines

/-- From the start of a line to the end of that one or a later one, a text can be cut. -/
theorem Text.LinedFrom.cut {pos : Nat} (h : t.LinedFrom pos lines) {a b : Line} (hb : b ∈ lines)
    (hle : a.start ≤ b.start) : a.start ≤ b.stop ∧ b.stop ≤ t.length ∧
      Span.OnBoundaries t ⟨a.start, b.stop⟩ := by
  have hstop : a.start ≤ b.stop := Nat.le_trans hle b.start_le_stop
  exact ⟨hstop, h.stop_le hb, Span.onBoundaries hstop⟩

/-- **The leftmost fences.** A text has one list of lines and one list of fences within them, and
these are `Text.lines` and `Text.fences`. From the start of a line to the end of that one or a later
one the text is cut in bounds and on character boundaries, which is so for every line, for what a
fence spans and for what it holds. -/
theorem leftmost_fences (t : Text) :
    (∀ lines fences, t.LinedFrom 0 lines ∧ FencedBy t lines fences ↔
      lines = t.lines ∧ fences = t.fences) ∧
    (∀ a ∈ t.lines, ∀ b ∈ t.lines, a.start ≤ b.start →
      a.start ≤ b.stop ∧ b.stop ≤ t.length ∧ Span.OnBoundaries t ⟨a.start, b.stop⟩) ∧
    ∀ f ∈ t.fences, f.span.start < f.span.stop ∧ f.span.stop ≤ t.length ∧
      f.span.OnBoundaries t := by
  refine ⟨fun lines fences => ?_, fun a _ b hb hle => t.linedFrom_lines.cut hb hle, fun f hf => ?_⟩
  · rw [Text.linedFrom_iff]
    refine and_congr_right fun hlines => ?_
    rw [hlines]
    exact fencedBy_iff t.linedFrom_lines
  · have hstands := Text.stands_of_mem_fences hf
    exact ⟨hstands.lt, hstands.stop_le_length, Span.onBoundaries (Nat.le_of_lt hstands.lt)⟩

/-- A quoted fence that is closed by a longer run, behind a line that may not open one. -/
example : Text.fences "\x60\x60\x60 a\x60\r\n> ~~~ py\r\n> x\r\n> ~~~~".toList =
    [⟨⟨8, 29⟩, "> ".toList, "~~~".toList, "py".toList, "> x".toList⟩] := by
  decide +kernel

end NotePress
