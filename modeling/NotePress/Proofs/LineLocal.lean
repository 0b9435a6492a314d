import NotePress.Proofs.Lists
import NotePress.Proofs.Scanning

/-!
# Scans of texts joined by a line break

Embeds and note images stand on one line, so what is recognised in front of a line break is the same
whether the text goes on behind it or not: every reader gives back what follows with the rest behind
it (`LocalReader`), and a recogniser takes the same characters (`Recogniser.LineLocal`). Behind the
break it sees what it sees at the start of a text. So the hits in `a ++ '\n' :: b` are those in `a`,
and those in `b` moved by as much as stands in front of it (`Recogniser.LineLocal.scan_join`).
-/

namespace NotePress

/-- The part that stands `k` characters further on. -/
def Span.shift (k : Nat) (s : Span) : Span := ⟨s.start + k, s.stop + k⟩

/-- The hit `k` characters further on. -/
def Hit.shift {α : Type} (k : Nat) (h : Hit α) : Hit α := ⟨h.span.shift k, h.value⟩

/-! ### Readers -/

section

variable {p : Char → Bool} (hp : p '\n' = false) (u v : Text)
include hp

theorem takeWhile_join : (u ++ '\n' :: v).takeWhile p = u.takeWhile p :=
  takeWhile_append_of_head (by rintro _ ⟨⟩; exact hp)

theorem dropWhile_join : (u ++ '\n' :: v).dropWhile p = u.dropWhile p ++ '\n' :: v :=
  dropWhile_append_of_head (by rintro _ ⟨⟩; exact hp)

end

/-- What is read in front of a line break does not depend on what stands behind it. -/
def LocalReader {α : Type} (read : Text → Option (α × Text)) : Prop :=
  ∀ u v, read (u ++ '\n' :: v) = (read u).map fun p => (p.1, p.2 ++ '\n' :: v)

theorem localReader_readBrackets? : LocalReader readBrackets? := by
  intro u v
  match u with
  | [] => rfl
  | [c] => simp [readBrackets?]
  | [c, d] => simp [readBrackets?]
  | c :: d :: e :: rest =>
    by_cases hopen : c = '!' ∧ d = '[' ∧ e = '['
    · obtain ⟨rfl, rfl, rfl⟩ := hopen
      simp only [List.cons_append, readBrackets?]
      rw [takeWhile_join (by decide), dropWhile_join (by decide)]
      cases rest.takeWhile fun c => decide (c ≠ '[' ∧ c ≠ ']' ∧ c ≠ '\n') with
      | nil => rfl
      | cons i inner =>
        rcases rest.dropWhile fun c => decide (c ≠ '[' ∧ c ≠ ']' ∧ c ≠ '\n') with
          _ | ⟨x, _ | ⟨y, after⟩⟩
        · rfl
        · simp
        · by_cases hclose : x = ']' ∧ y = ']'
          · obtain ⟨rfl, rfl⟩ := hclose
            rfl
          · simp_all
    · simp_all [readBrackets?]

theorem localReader_readBraces? : LocalReader readBraces? := by
  intro u v
  match u with
  | [] => rfl
  | c :: rest =>
    by_cases hopen : c = '\x7b'
    · subst hopen
      simp only [List.cons_append, readBraces?]
      rw [takeWhile_join (by decide), dropWhile_join (by decide)]
      rcases rest.dropWhile fun c => decide (c ≠ '\x7b' ∧ c ≠ '\x7d' ∧ c ≠ '\n') with
        _ | ⟨x, after⟩
      · rfl
      · by_cases hclose : x = '\x7d'
        · subst hclose
          rfl
        · simp_all
    · simp_all [readBraces?]

/-- Reads the target of an image in angle brackets. -/
def readAngled? : Text → Option (Text × Text)
  | '<' :: rest =>
    let isInner := fun c => c ≠ '<' ∧ c ≠ '>' ∧ c ≠ '\n'
    match rest.takeWhile isInner, rest.dropWhile isInner with
    | c :: cs, '>' :: ')' :: after => some ('<' :: c :: cs ++ ['>'], after)
    | _, _ => none
  | _ => none

/-- Reads the target of an image without blanks and parentheses. -/
def readBare? (t : Text) : Option (Text × Text) :=
  let isInner := fun c => c ≠ '(' ∧ c ≠ ')' ∧ ¬ isBlank c = true
  match t.takeWhile isInner, t.dropWhile isInner with
  | c :: cs, ')' :: after => some (c :: cs, after)
  | _, _ => none

theorem readDestination?_angled (t : Text) : readDestination? t =
    match readAngled? t with
    | some found => some found
    | none => readBare? t := rfl

theorem readDestination?_eq (t : Text) : readDestination? t = (readAngled? t).or (readBare? t) := by
  rw [readDestination?_angled]
  cases readAngled? t <;> rfl

theorem localReader_readAngled? : LocalReader readAngled? := by
  intro u v
  match u with
  | [] => rfl
  | c :: rest =>
    by_cases hopen : c = '<'
    · subst hopen
      simp only [List.cons_append, readAngled?]
      rw [takeWhile_join (by decide), dropWhile_join (by decide)]
      cases rest.takeWhile fun c => decide (c ≠ '<' ∧ c ≠ '>' ∧ c ≠ '\n') with
      | nil => rfl
      | cons i inner =>
        rcases rest.dropWhile fun c => decide (c ≠ '<' ∧ c ≠ '>' ∧ c ≠ '\n') with
          _ | ⟨x, _ | ⟨y, after⟩⟩
        · rfl
        · simp
        · by_cases hclose : x = '>' ∧ y = ')'
          · obtain ⟨rfl, rfl⟩ := hclose
            rfl
          · simp_all
    · simp_all [readAngled?]

theorem localReader_readBare? : LocalReader readBare? := by
  intro u v
  unfold readBare?
  simp only
  rw [takeWhile_join (by decide), dropWhile_join (by decide)]
  cases u.takeWhile fun c => decide (c ≠ '(' ∧ c ≠ ')' ∧ ¬isBlank c = true) with
  | nil => rfl
  | cons i inner =>
    rcases u.dropWhile fun c => decide (c ≠ '(' ∧ c ≠ ')' ∧ ¬isBlank c = true) with _ | ⟨x, after⟩
    · rfl
    · by_cases hclose : x = ')'
      · subst hclose
        rfl
      · simp_all

theorem localReader_readDestination? : LocalReader readDestination? := by
  intro u v
  simp only [readDestination?_eq]
  rw [localReader_readAngled?, localReader_readBare?, Option.map_or]

theorem readImage?_join (u v : Text) :
    readImage? (u ++ '\n' :: v) =
      (readImage? u).map fun p => (p.1, p.2.1, p.2.2 ++ '\n' :: v) := by
  match u with
  | [] => rfl
  | [c] => simp [readImage?]
  | c :: d :: rest =>
    by_cases hopen : c = '!' ∧ d = '['
    · obtain ⟨rfl, rfl⟩ := hopen
      simp only [List.cons_append, readImage?]
      rw [takeWhile_join (by decide), dropWhile_join (by decide)]
      rcases rest.dropWhile fun c => decide (c ≠ '[' ∧ c ≠ ']' ∧ c ≠ '\n') with
        _ | ⟨x, _ | ⟨y, after⟩⟩
      · rfl
      · simp
      · by_cases hclose : x = ']' ∧ y = '('
        · obtain ⟨rfl, rfl⟩ := hclose
          simp only [List.cons_append, localReader_readDestination? after v, Option.map_map]
          rfl
        · simp_all
    · simp_all [readImage?]

/-! ### Recognisers -/

/-- A recogniser that looks no further than to the end of the line. -/
structure Recogniser.LineLocal {α : Type} (recognise : Recogniser α) : Prop where
  /-- It takes the same, whatever stands behind the line break. -/
  join : ∀ before u v, recognise before (u ++ '\n' :: v) = recognise before u
  /-- Nothing is found at the end of a text. -/
  nil : ∀ before, recognise before [] = none
  /-- Behind a line break it sees what it sees at the start of a text. -/
  start : ∀ t, recognise (some '\n') t = recognise none t
  /-- It takes no more than there is. -/
  le_length : ∀ before t n a, recognise before t = some (n, a) → n ≤ t.length

theorem quoteAt_join (before : Option Char) (u v : Text) :
    quoteAt before (u ++ '\n' :: v) = quoteAt before u := by
  unfold quoteAt
  rw [takeWhile_join (by decide)]

theorem quoteAt_break (t : Text) : quoteAt (some '\n') t = quoteAt none t := by
  unfold quoteAt
  rfl

/-- What stands behind the quote prefix goes on behind the line break. -/
theorem drop_quoteAt_join (before : Option Char) (u v : Text) :
    (u ++ '\n' :: v).drop (quoteAt before (u ++ '\n' :: v)).length =
      u.drop (quoteAt before u).length ++ '\n' :: v := by
  have hfront := congrArg List.length (quoteAt_append_drop before u)
  rw [List.length_append] at hfront
  rw [quoteAt_join, List.drop_append_of_le_length (by omega)]

theorem length_join_sub (u v after : Text) :
    (u ++ '\n' :: v).length - (after ++ '\n' :: v).length = u.length - after.length := by
  simp only [List.length_append]
  omega

theorem Recogniser.Marked.le_length {α : Type} {recognise : Recogniser α}
    (h : recognise.Marked) (before : Option Char) (t : Text) (n : Nat) (a : α)
    (hfound : recognise before t = some (n, a)) : n ≤ t.length := by
  obtain ⟨middle, after, hsplit, -, rfl⟩ := h before t n a hfound
  have hlength := congrArg List.length hsplit
  simp only [List.length_append, List.length_cons] at hlength
  omega

theorem lineLocal_recogniseEmbed : Recogniser.LineLocal recogniseEmbed where
  join before u v := by
    unfold recogniseEmbed
    simp only [drop_quoteAt_join, localReader_readBrackets? _ v, Option.map_map]
    congr 1
    funext p
    simp only [Function.comp, length_join_sub, quoteAt_join]
  nil _ := by simp [recogniseEmbed, quoteAt, readBrackets?]
  start t := by
    unfold recogniseEmbed
    rw [quoteAt_break]
  le_length := marked_recogniseEmbed.le_length

theorem lineLocal_recogniseAttributedEmbed : Recogniser.LineLocal recogniseAttributedEmbed where
  join before u v := by
    unfold recogniseAttributedEmbed
    simp only [drop_quoteAt_join, localReader_readBrackets? _ v, Option.map_map]
    congr 1
    funext p
    simp only [Function.comp, localReader_readBraces? p.2 v, quoteAt_join]
    cases readBraces? p.2 <;> simp only [Option.map_none, Option.map_some, length_join_sub]
  nil _ := by simp [recogniseAttributedEmbed, quoteAt, readBrackets?]
  start t := by
    unfold recogniseAttributedEmbed
    rw [quoteAt_break]
  le_length := marked_recogniseAttributedEmbed.le_length

theorem lineLocal_recogniseImage : Recogniser.LineLocal recogniseImage where
  join before u v := by
    unfold recogniseImage
    simp only [drop_quoteAt_join, readImage?_join _ v, Option.map_map]
    congr 1
    funext p
    simp only [Function.comp, length_join_sub, quoteAt_join]
  nil _ := by simp [recogniseImage, quoteAt, readImage?]
  start t := by
    unfold recogniseImage
    rw [quoteAt_break]
  le_length := marked_recogniseImage.le_length

/-! ### Scans -/

namespace Text

variable {α : Type} (recognise : Recogniser α)

/-- Where the walk starts to count moves all hits. -/
theorem scanFrom_add (before : Option Char) (skip pos k : Nat) (t : Text) :
    scanFrom recognise before skip (pos + k) t =
      (scanFrom recognise before skip pos t).map (Hit.shift k) := by
  induction t generalizing before skip pos with
  | nil => rfl
  | cons c cs ih =>
    cases skip with
    | succ skip =>
      rw [scanFrom, scanFrom, ← ih, Nat.add_right_comm]
    | zero =>
      rw [scanFrom, scanFrom]
      cases recognise before (c :: cs) with
      | none => rw [← ih, Nat.add_right_comm]
      | some found =>
        rw [List.map_cons, ← ih]
        simp only [Hit.shift, Span.shift, Nat.add_right_comm]

end Text

namespace Recogniser.LineLocal

variable {α : Type} {recognise : Recogniser α}

/-- **A walk over a line break** finds what it finds in front of it, and then starts anew. -/
theorem scanFrom_join (h : recognise.LineLocal) (before : Option Char) {skip : Nat} (pos : Nat)
    {u : Text} (hskip : skip ≤ u.length) (v : Text) :
    Text.scanFrom recognise before skip pos (u ++ '\n' :: v) =
      Text.scanFrom recognise before skip pos u ++
        Text.scanFrom recognise (some '\n') 0 (pos + u.length + 1) v := by
  induction u generalizing before skip pos with
  | nil =>
    obtain rfl : skip = 0 := Nat.le_zero.mp hskip
    have hbreak : recognise before ('\n' :: v) = none := (h.join before [] v).trans (h.nil before)
    simp [Text.scanFrom, hbreak]
  | cons c cs ih =>
    have hpos : pos + (c :: cs).length + 1 = pos + 1 + cs.length + 1 := by
      rw [List.length_cons]
      omega
    rw [List.cons_append, hpos]
    cases skip with
    | succ skip =>
      rw [Text.scanFrom, Text.scanFrom]
      exact ih _ _ (Nat.le_of_succ_le_succ hskip)
    | zero =>
      have hjoin : recognise before (c :: (cs ++ '\n' :: v)) = recognise before (c :: cs) :=
        h.join before (c :: cs) v
      rw [Text.scanFrom, Text.scanFrom, hjoin]
      cases hfound : recognise before (c :: cs) with
      | none => exact ih _ _ (Nat.zero_le _)
      | some found =>
        have hlength := h.le_length before (c :: cs) found.1 found.2 hfound
        rw [List.length_cons] at hlength
        simp only
        rw [ih _ _ (by omega)]
        rfl

/-- **The hits in two joined texts.** -/
theorem scan_join (h : recognise.LineLocal) (a b : Text) :
    Text.scan recognise (a ++ '\n' :: b) =
      a.scan recognise ++ (b.scan recognise).map (Hit.shift (a.length + 1)) := by
  have hstart : ∀ pos, Text.scanFrom recognise (some '\n') 0 pos b =
      Text.scanFrom recognise none 0 pos b := by
    intro pos
    cases b with
    | nil => rfl
    | cons c cs => rw [Text.scanFrom, Text.scanFrom, h.start]
  unfold Text.scan
  rw [h.scanFrom_join none 0 (Nat.zero_le _) b, hstart, Nat.add_assoc, Text.scanFrom_add]

end Recogniser.LineLocal

end NotePress
