import NotePress.Proofs.Lists
import NotePress.Text.LineCount

/-!
# Counted lines

The lines that are counted end at a line feed, at a carriage return, or at a pair of both. A text is
such a line with its break and the text behind it, or a last line without a break
(`Text.countedLines_induct`), and so are its counted lines (`Text.countedLines_line`). They differ
from the pieces between single break characters by empty lines only
(`Text.forall_countedLines_iff`), and lines without breaks that are put together are counted again
(`Text.countedLines_endLines`).
-/

namespace NotePress.Text

/-- Whether a character ends a line for a compiler. -/
def isBreakChar (c : Char) : Bool := c = '\n' || c = '\r'

/-- Whether nothing ends a line inside a text. -/
def Unbroken (t : Text) : Prop := ∀ c ∈ t, isBreakChar c = false

instance : DecidablePred Unbroken := fun t => List.decidableBAll (isBreakChar · = false) t

/-- **The lines that are counted**, without their breaks. -/
def countedLines : Text → List Text
  | [] => []
  | '\r' :: '\n' :: rest => [] :: countedLines rest
  | '\r' :: rest => [] :: countedLines rest
  | '\n' :: rest => [] :: countedLines rest
  | [c] => [[c]]
  | c :: d :: rest => (countedLines (d :: rest)).modifyHead (c :: ·)

/-- They are as many as are counted. -/
theorem length_countedLines (t : Text) : t.countedLines.length = t.lineCount := by
  induction t using countedLines.induct <;> simp_all [countedLines, lineCount]

/-- What breaks a counted line in front of the text `rest`. -/
inductive CountedBreak (rest : Text) : Text → Prop where
  | lineFeed : CountedBreak rest ['\n']
  | pair : CountedBreak rest ['\r', '\n']
  | carriageReturn (h : rest.head? ≠ some '\n') : CountedBreak rest ['\r']

variable {t l lead rest brk : Text} {c : Char}

theorem Unbroken.not_mem (hl : Unbroken l) : '\r' ∉ l ∧ '\n' ∉ l :=
  ⟨fun h => Bool.noConfusion (hl _ h), fun h => Bool.noConfusion (hl _ h)⟩

theorem unbroken_append {a b : Text} : Unbroken (a ++ b) ↔ Unbroken a ∧ Unbroken b :=
  List.forall_mem_append

theorem countedLines_cons (hc : isBreakChar c = false) (hne : t ≠ []) :
    countedLines (c :: t) = t.countedLines.modifyHead (c :: ·) := by
  obtain ⟨d, rest, rfl⟩ := List.exists_cons_of_ne_nil hne
  have hfeed : c ≠ '\n' := by
    rintro rfl
    cases hc
  have hreturn : c ≠ '\r' := by
    rintro rfl
    cases hc
  rw [countedLines] <;> simp_all

/-- A text without breaks in front of a text belongs to its first line. -/
theorem countedLines_append (hlead : Unbroken lead) (hne : t ≠ []) :
    countedLines (lead ++ t) = t.countedLines.modifyHead (lead ++ ·) := by
  induction lead with
  | nil => cases h : t.countedLines <;> simp [h]
  | cons c lead ih =>
    rw [List.cons_append, countedLines_cons (hlead c (List.mem_cons_self ..)) (by simp [hne]),
      ih fun d hd => hlead d (List.mem_cons_of_mem _ hd)]
    cases t.countedLines <;> rfl

/-- A text without breaks is one line. -/
theorem countedLines_of_unbroken (hl : Unbroken l) (hne : l ≠ []) :
    countedLines l = [l] := by
  induction l with
  | nil => exact absurd rfl hne
  | cons c rest ih =>
    by_cases hrest : rest = []
    · subst hrest
      rw [countedLines] <;> rintro rfl <;> cases hl _ (List.mem_cons_self ..)
    · rw [countedLines_cons (hl c (List.mem_cons_self ..)) hrest,
        ih (fun d hd => hl d (List.mem_cons_of_mem _ hd)) hrest]
      rfl

/-- A line with its break comes in front of the other lines. -/
theorem countedLines_line (hl : Unbroken l) (hbrk : CountedBreak rest brk) :
    countedLines (l ++ (brk ++ rest)) = l :: rest.countedLines := by
  have hbreak : countedLines (brk ++ rest) = [] :: rest.countedLines := by
    cases hbrk with
    | lineFeed => rfl
    | pair => rfl
    | carriageReturn h =>
      rw [List.singleton_append, countedLines]
      rintro rest rfl
      exact h rfl
  have hne : brk ++ rest ≠ [] := by
    cases hbrk <;> simp
  rw [countedLines_append hl hne, hbreak]
  simp

/-- A line feed behind a line without breaks ends it. -/
theorem countedLines_feed (hl : Unbroken l) (rest : Text) :
    countedLines (l ++ '\n' :: rest) = l :: rest.countedLines :=
  countedLines_line hl .lineFeed

/-- A text is one line without a break, or a line with its break in front of a text. -/
theorem countedLines_induct {motive : Text → Prop}
    (last : ∀ l, Unbroken l → motive l)
    (line : ∀ l brk rest, Unbroken l → CountedBreak rest brk → motive rest →
      motive (l ++ (brk ++ rest))) (t : Text) : motive t := by
  induction h : t.length using Nat.strongRecOn generalizing t with
  | _ n ih =>
    rcases exists_first_or (fun c => isBreakChar c = true) t with hfree | ⟨l, c, rest, rfl, hc, hl⟩
    · exact last t fun c hc => by simpa using hfree c hc
    · have hl : Unbroken l := fun c hc => by simpa using hl c hc
      have hbehind : ∀ back : Text, back <:+ rest → motive back := by
        intro back hback
        have hlength := hback.length_le
        rw [List.length_append, List.length_cons] at h
        exact ih back.length (by omega) back rfl
      have hbreak : c = '\n' ∨ c = '\r' := by simpa [isBreakChar] using hc
      rcases hbreak with rfl | rfl
      · exact line l ['\n'] rest hl .lineFeed (hbehind rest List.suffix_rfl)
      · by_cases hpair : rest.head? = some '\n'
        · obtain ⟨back, rfl⟩ := List.head?_eq_some_iff.mp hpair
          exact line l ['\r', '\n'] back hl .pair (hbehind back (List.suffix_cons ..))
        · exact line l ['\r'] rest hl (.carriageReturn hpair) (hbehind rest List.suffix_rfl)

/-- **Counted lines are the pieces between break characters**, but for empty lines: a pair of both
has an empty piece inside, and a text that ends with a break has one at its end. -/
theorem forall_countedLines_iff {P : Text → Prop} (hnil : P []) (t : Text) :
    (∀ l ∈ t.countedLines, P l) ↔ ∀ piece ∈ t.splitOnP isBreakChar, P piece := by
  induction t using countedLines_induct with
  | last l hl =>
    rw [List.splitOnP_eq_singleton hl]
    by_cases hne : l = []
    · subst hne
      simp [countedLines, hnil]
    · rw [countedLines_of_unbroken hl hne]
  | line l brk rest hl hbrk ih =>
    have hpieces : (∀ piece ∈ (l ++ (brk ++ rest)).splitOnP isBreakChar, P piece) ↔
        P l ∧ ∀ piece ∈ rest.splitOnP isBreakChar, P piece := by
      cases hbrk with
      | lineFeed =>
        rw [List.singleton_append, List.splitOnP_append_cons_of_forall_mem hl _ (by rfl)]
        exact List.forall_mem_cons
      | pair =>
        rw [List.cons_append, List.singleton_append,
          List.splitOnP_append_cons_of_forall_mem hl _ (by rfl),
          List.splitOnP_cons_eq_if_modifyHead]
        simp [isBreakChar, hnil]
      | carriageReturn =>
        rw [List.singleton_append, List.splitOnP_append_cons_of_forall_mem hl _ (by rfl)]
        exact List.forall_mem_cons
    rw [countedLines_line hl hbrk, hpieces, ← ih]
    exact List.forall_mem_cons

/-! ### Lines that are put together -/

/-- Lines, each with a line feed behind it. -/
def endLines (lines : List Text) : Text := lines.flatMap fun l => l ++ ['\n']

@[simp] theorem endLines_nil : endLines [] = [] := rfl

@[simp] theorem endLines_cons (l : Text) (lines : List Text) :
    endLines (l :: lines) = l ++ '\n' :: endLines lines := by
  rw [endLines, List.flatMap_cons, List.append_assoc]
  rfl

theorem endLines_concat (lines : List Text) (l : Text) :
    endLines (lines ++ [l]) = endLines lines ++ l ++ ['\n'] := by
  rw [endLines, List.flatMap_append, List.flatMap_singleton, List.append_assoc]
  rfl

/-- Lines without breaks are the counted lines of the text they are put together to. -/
theorem countedLines_endLines {lines : List Text}
    (h : ∀ l ∈ lines, Unbroken l) : (endLines lines).countedLines = lines := by
  induction lines with
  | nil => rfl
  | cons l rest ih =>
    obtain ⟨hl, hrest⟩ := List.forall_mem_cons.mp h
    rw [endLines_cons, countedLines_feed hl, ih hrest]

end NotePress.Text
