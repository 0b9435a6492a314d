import NotePress.Proofs.FlowTokens
import NotePress.Proofs.LiteralScan

/-!
# Steps of the scanner in blocks

Outside of flow collections the indentation of a line opens and closes blocks. Between two tokens
the scanner is known by its cursor, by the blocks that are open with the tokens so far (`Blocks`),
and by whether a key may begin (`Scanner.standing`). A block is closed only when the token behind it
is met, so `Scanner.Stands` says of a scanner in front of a token which blocks will be open then.
-/

namespace NotePress.Yaml

/-! ### Open blocks -/

/-- The open blocks, and the tokens that were found, the last one first. -/
structure Blocks where
  /-- The columns of the blocks around the innermost one. -/
  outer : List Int
  /-- The column of the innermost block. -/
  indent : Int
  tokens : List Token

namespace Blocks

variable {b : Blocks} {n column : Nat} {ts : List Token}

/-- The blocks that are left in front of a token at a column. -/
def close (b : Blocks) (column : Int) : Blocks :=
  let p := Scanner.closeBlocks.go column b.outer b.indent b.tokens
  ⟨p.1, p.2.1, p.2.2⟩

/-- Puts tokens behind the ones that were found. -/
def add (b : Blocks) (ts : List Token) : Blocks := { b with tokens := ts.reverse ++ b.tokens }

/-- Opens the block of a map at a column, unless one is open there. -/
def openMap (b : Blocks) (column : Nat) : Blocks :=
  if (column : Int) ≤ b.indent then b
  else ⟨b.indent :: b.outer, column, .blockMappingStart :: b.tokens⟩

/-- The blocks in front of a text. -/
def none : Blocks := ⟨[], -1, []⟩

@[simp] theorem indent_add (b : Blocks) (ts : List Token) : (b.add ts).indent = b.indent := rfl

@[simp] theorem add_nil (b : Blocks) : b.add [] = b := rfl

@[simp] theorem add_add (b : Blocks) (ts us : List Token) :
    (b.add ts).add us = b.add (ts ++ us) := by simp [add]

theorem openMap_of_le (h : (column : Int) ≤ b.indent) : b.openMap column = b := if_pos h

theorem indent_openMap (h : b.indent ≤ (column : Int)) : (b.openMap column).indent = column := by
  unfold openMap
  split
  · omega
  · rfl

/-- No block is closed in front of what is indented as far. -/
theorem close_of_le {k : Int} (h : b.indent ≤ k) : b.close k = b := by
  obtain ⟨outer, indent, tokens⟩ := b
  cases outer with
  | nil => rfl
  | cons next outer =>
    have hnot : ¬k < indent := Int.not_lt.mpr h
    simp only [close, Scanner.closeBlocks.go, hnot, if_false]

/-- **A block is closed** in front of what is indented less. -/
theorem close_openMap {k : Int} (hopen : b.indent < column) (hclose : k < column) :
    ((b.openMap column).add ts).close k =
      (b.add (.blockMappingStart :: ts ++ [.blockEnd])).close k := by
  simp [openMap, Int.not_le.mpr hopen, add, close, Scanner.closeBlocks.go, hclose]

end Blocks

namespace Scanner

variable {s s' : Scanner} {b : Blocks} {c : Cursor} {allowed keys : Bool} {column : Nat}
  {rest : Text}

/-- The blocks of a scanner. -/
def blocks (s : Scanner) : Blocks := ⟨s.outer, s.indent, s.tokens⟩

/-- The scanner at a token outside of flow collections, where no key has begun. -/
def standing (c : Cursor) (allowed : Bool) (b : Blocks) : Scanner :=
  { cursor := c, tokens := b.tokens, indent := b.indent, outer := b.outer, keyAllowed := allowed,
    places := [none] }

/-- No key that began can end on a line. -/
def Unkeyed (s : Scanner) (line : Nat) : Prop :=
  ∃ place : Option KeyPlace, s.places = [place] ∧
    ∀ p, place = some p → p.required = false ∧ p.line < line

/-- **The scanner stands in front of a token**: behind spaces, or at the end of the line before.
`keys` asks that a key may begin there; `b` are the blocks that are open then. -/
structure Stands (s : Scanner) (column : Nat) (keys : Bool) (rest : Text) (b : Blocks) : Prop where
  ahead : (∃ k, s.cursor.rest = List.replicate k ' ' ++ rest ∧ s.cursor.column + k = column ∧
      (keys = true → s.keyAllowed = true) ∧ s.Unkeyed s.cursor.line) ∨
    (s.cursor.rest = '\n' :: (List.replicate column ' ' ++ rest) ∧ s.Unkeyed (s.cursor.line + 1))
  closed : s.blocks.close column = b

/-! ### Between tokens -/

theorem Unkeyed.dropStale? {line : Nat} (h : s.Unkeyed line) (hline : line ≤ s.cursor.line) :
    s.dropStale? = some { s with places := [none] } := by
  obtain ⟨place, hplaces, hplace⟩ := h
  cases place with
  | none => simp [Scanner.dropStale?, hplaces]
  | some p =>
    obtain ⟨hrequired, hless⟩ := hplace p rfl
    have hstale : p.line < s.cursor.line ∨ p.index + 1024 < s.cursor.index := .inl (by omega)
    simp [Scanner.dropStale?, hplaces, placeHolds?, hstale, hrequired]

/-- Where no key can end, the scanner is at the token that comes next. -/
theorem run?_of_skipGaps {line fuel : Nat}
    (hskip : skipGaps (s.cursor.rest.length + 1) s = s') (hkey : s'.Unkeyed line)
    (hline : line ≤ s'.cursor.line) :
    run? (fuel + 1) s =
      let r := standing s'.cursor s'.keyAllowed (s'.blocks.close s'.cursor.column)
      match s'.cursor.peek with
      | none => r.finish?
      | some x => (r.readToken? x).bind (run? fuel) := by
  have hclose : ({ s' with places := [none] } : Scanner).closeBlocks s'.cursor.column =
      standing s'.cursor s'.keyAllowed (s'.blocks.close s'.cursor.column) := rfl
  rw [run?, hskip]
  simp only [hkey.dropStale? hline, Option.bind_some, hclose]
  rfl

theorem Stands.inFlow (h : s.Stands column keys rest b) : s.inFlow = false := by
  obtain ⟨-, -, -, -, place, hplaces, -⟩ | ⟨-, place, hplaces, -⟩ := h.ahead <;>
    simp [Scanner.inFlow, hplaces]

/-- Spaces are skipped up to a token. -/
theorem skipGaps_spaces {k : Nat} (hlead : ∀ x ∈ rest.head?, isLead x = true)
    (hc : s.cursor.rest = List.replicate k ' ' ++ rest) (fuel : Nat) :
    skipGaps (fuel + 1) s = { s with cursor := s.cursor.skips k } := by
  have hbreak : isBreakAt (s.cursor.skips k).peek = false := by
    unfold Cursor.peek
    rw [Cursor.rest_skips, hc, List.drop_left' (by simp)]
    cases rest with
    | nil => rfl
    | cons x rest => exact (isLead_iff.mp (hlead x rfl)).2.2.2.2.2
  rw [skipGaps_succ (fun _ hx => List.eq_of_mem_replicate hx) (fun x hx => .inr (hlead x hx)) hc,
    List.length_replicate]
  simp only [hbreak, Bool.false_eq_true, if_false]

/-- The end of a line is skipped, and the indentation of the next one, where a key may begin. -/
theorem skipGaps_line (hlead : ∀ x ∈ rest.head?, isLead x = true) (hflow : s.inFlow = false)
    (hc : s.cursor.rest = '\n' :: (List.replicate column ' ' ++ rest)) :
    skipGaps (s.cursor.rest.length + 1) s =
      { s with
        cursor := Cursor.skips ⟨List.replicate column ' ' ++ rest, s.cursor.index + 1,
          s.cursor.line + 1, 0⟩ column
        keyAllowed := true } := by
  have hbreak := @skipGaps_succ s [] _ (by simp) (by rintro _ ⟨⟩; exact .inl rfl) hc
    s.cursor.rest.length
  simp only [List.length_nil, Cursor.skips_zero, Cursor.peek_of_rest hc,
    Cursor.takeBreak_of_rest hc (.inl rfl), hflow, Bool.false_eq_true, if_false] at hbreak
  rw [hbreak, if_pos (show isBreakAt (some '\n') = true from rfl), hc]
  exact skipGaps_spaces hlead rfl _

/-- **The token that comes next is met**, with the blocks closed that end in front of it. -/
theorem Stands.exists_run? (h : s.Stands column keys rest b)
    (hlead : ∀ x ∈ rest.head?, isLead x = true) :
    ∃ c allowed, c.rest = rest ∧ c.column = column ∧ (keys = true → allowed = true) ∧
      ∀ fuel, run? (fuel + 1) s = match rest.head? with
        | none => (standing c allowed b).finish?
        | some x => ((standing c allowed b).readToken? x).bind (run? fuel) := by
  have hrun : ∀ {c : Cursor} {allowed : Bool} {line : Nat}, c.rest = rest → c.column = column →
      line ≤ c.line → s.Unkeyed line →
      skipGaps (s.cursor.rest.length + 1) s = { s with cursor := c, keyAllowed := allowed } →
      ∀ fuel, run? (fuel + 1) s = match rest.head? with
        | none => (standing c allowed b).finish?
        | some x => ((standing c allowed b).readToken? x).bind (run? fuel) := by
    intro c allowed line hc hcolumn hline hkey hskip fuel
    rw [run?_of_skipGaps hskip hkey hline, ← h.closed, ← hcolumn, ← hc]
    rfl
  obtain ⟨k, hc, hcolumn, hkeys, hkey⟩ | ⟨hc, hkey⟩ := h.ahead
  · have hrest : (s.cursor.skips k).rest = rest := by
      rw [Cursor.rest_skips, hc, List.drop_left' (by simp)]
    exact ⟨s.cursor.skips k, s.keyAllowed, hrest, hcolumn, hkeys,
      hrun hrest hcolumn (Nat.le_refl _) hkey (skipGaps_spaces hlead hc _)⟩
  · refine ⟨_, true, ?_, ?_, fun _ => rfl,
      hrun ?_ ?_ (Nat.le_refl _) hkey (skipGaps_line hlead h.inFlow hc)⟩
    all_goals simp

/-- A token is read where the scanner stands, in one step. -/
theorem Stands.exists_step {x : Char} (h : s.Stands column keys (x :: rest) b)
    (hlead : isLead x = true) : ∃ c allowed, c.rest = x :: rest ∧ c.column = column ∧
      (keys = true → allowed = true) ∧
      ∀ s', (standing c allowed b).readToken? x = some s' → Scans [x] s s' := by
  obtain ⟨c, allowed, hc, hcolumn, hkeys, hrun⟩ := h.exists_run? (by rintro _ ⟨⟩; exact hlead)
  refine ⟨c, allowed, hc, hcolumn, hkeys, fun s' hs' => ⟨1, Nat.le_refl _, fun fuel => ?_⟩⟩
  rw [Nat.add_comm, hrun]
  simp only [List.head?_cons, hs', Option.bind_some]

/-! ### Scalars -/

/-- Where a key may have begun. -/
def placeAt (c : Cursor) (b : Blocks) : KeyPlace :=
  ⟨decide (b.indent = (c.column : Int)), b.tokens.length, c.line, c.index, c.column⟩

/-- The scanner behind a scalar that may have been a key. -/
def behindScalar (c c' : Cursor) (allowed allowed' : Bool) (b : Blocks) (t : Token) : Scanner :=
  { standing c' allowed' (b.add [t]) with places := [if allowed then some (placeAt c b) else none] }

theorem rememberKey?_standing (c : Cursor) (allowed : Bool) (b : Blocks) :
    (standing c allowed b).rememberKey? = some { standing c allowed b with
      places := [if allowed then some (placeAt c b) else none] } := by
  cases allowed <;> rfl

/-- **A text in quotes is found.** -/
theorem readToken?_quoted {single : Bool} {t : Text} {c' : Cursor}
    (hc : c.rest = quoteOf single :: rest) (hread : readQuoted? single c = some (t, c')) :
    (standing c allowed b).readToken? (quoteOf single) =
      some (behindScalar c c' allowed false b (.scalar t false)) := by
  have hnamed : (standing c allowed b).named?
      (fun c => (readQuoted? single c).map fun p => (.scalar p.1 false, p.2)) =
      some (behindScalar c c' allowed false b (.scalar t false)) := by
    unfold named?
    rw [rememberKey?_standing, Option.bind_some]
    simp only [standing, hread, Option.map_some]
    rfl
  rw [← hnamed]
  have hcursor : (standing c allowed b).cursor.rest = quoteOf single :: rest := hc
  unfold readToken?
  cases single with
  | false => simp [quoteOf, seesTriple_of_rest hcursor]
  | true => simp [quoteOf, seesTriple_of_rest hcursor]

/-- At the beginning of a plain text a plain scalar is read. -/
theorem readToken?_of_plain {x : Char} {t tail : Text} (hplain : PlainBegin x t)
    (hdashes : c.seesTriple '-' = false) (hdots : c.seesTriple '.' = false)
    (hc : c.rest = x :: (t ++ tail)) :
    (standing c allowed b).readToken? x = (standing c allowed b).plainScalar? := by
  have hfirst : marksFirst x t = false := hplain.first
  have hahead : x = '?' ∨ x = ':' ∨ x = '-' → isGapOrEnd (c.ahead 1) = false := fun hx => by
    have hnext : gapNext t = false := by rcases hx with rfl | rfl | rfl <;> exact hfirst
    unfold Cursor.ahead
    rw [hc]
    cases t with
    | nil => cases hnext
    | cons y t => exact hnext
  have hspace : isSpaceTab x = false :=
    isSpaceTab_of_isShown (hplain.rest.shown x (List.mem_cons_self ..)) hplain.noSpace
  have hmarks : x ∉ ['#', ',', '[', ']', '\x7b', '\x7d', '&', '*', '!', '|', '>', '\'', '"', '%',
      '@', '\x60'] := fun hx => by
    have hcontains : "#,[]\x7b\x7d&*!|>'\"%@\x60".toList.contains x = true :=
      List.contains_iff_mem.mpr (by simpa using hx)
    rw [marksFirst, hcontains] at hfirst
    cases hfirst
  simp only [List.mem_cons, List.not_mem_nil, or_false, not_or] at hmarks
  unfold readToken? plainMayBegin
  by_cases hx : x = '?' ∨ x = ':' ∨ x = '-'
  · have hgap : isGapAt (c.ahead 1) = false := by
      have hend := hahead hx
      cases hnext : c.ahead 1 with
      | none => rfl
      | some y =>
        rw [hnext, isGapOrEnd, Bool.or_eq_false_iff] at hend
        exact hend.1
    rcases hx with rfl | rfl | rfl <;>
      simp [standing, hdashes, hdots, hahead, hgap, Scanner.inFlow, isSpaceTab]
  · rw [not_or, not_or] at hx
    simp [standing, hdashes, hdots, hmarks, hx, hspace, Scanner.inFlow]

/-- **A plain text is found**, up to what ends it. -/
theorem readToken?_plain {x : Char} {t tail : Text} {broken : Bool} {behind : Cursor → Cursor}
    (hplain : plainAllowed (x :: t) = true)
    (hends : EndsPlain (b.indent + 1).toNat tail broken behind)
    (hcolumn : (b.indent + 1).toNat ≤ c.column + 1) (hc : c.rest = x :: t ++ tail) :
    (standing c allowed b).readToken? x = some (behindScalar c (behind (c.skips (x :: t).length))
      allowed broken b (.scalar (x :: t) true)) := by
  have hbegin := plainBegin_of_plainAllowed hplain
  have hne : x :: t ≠ [] := List.cons_ne_nil _ _
  have hread := readPlain?_plain hplain hne hends hcolumn hc
  rw [readToken?_of_plain hbegin
    (seesTriple_plain hne hc hbegin.dashes fun z hz => (hends.head? z hz).1)
    (seesTriple_plain hne hc hbegin.dots fun z hz => (hends.head? z hz).2) hc]
  unfold plainScalar?
  rw [rememberKey?_standing, Option.bind_some]
  have hflow : Scanner.inFlow { standing c allowed b with
      places := [if allowed then some (placeAt c b) else none] } = false := rfl
  rw [hflow]
  simp only [standing, hread, Option.map_some]
  rfl

/-- **A literal block is found.** -/
theorem readToken?_literal {t : Text} {c' : Cursor} (hc : c.rest = '|' :: rest)
    (hread : readBlock? true b.indent c = some (t, c')) :
    (standing c allowed b).readToken? '|' = some (standing c' true (b.add [.scalar t false])) := by
  have hblock : (standing c allowed b).blockScalar? true =
      some (standing c' true (b.add [.scalar t false])) := by
    unfold blockScalar?
    show ((some (standing c allowed b)).bind _) = _
    rw [Option.bind_some]
    simp only [standing, hread, Option.map_some]
    rfl
  rw [← hblock]
  unfold readToken?
  simp [seesTriple_of_rest hc, standing, Scanner.inFlow]

end Scanner

/-! ### Scalars as they are written -/

/-- **How a scalar is written**, and the token it is read as. -/
inductive WrittenAs (indent : Nat) : Text → Token → Prop where
  | plain {w : Text} (hne : w ≠ []) (h : plainAllowed w = true) :
      WrittenAs indent w (.scalar w true)
  | quoted {single : Bool} {w t : Text} (h : Quoted single false w t)
      (hallowed : ∀ x ∈ w, isAllowed x = true) :
      WrittenAs indent (quoteOf single :: (w ++ [quoteOf single])) (.scalar t false)
  | literal {t : Text} (hne : t ≠ []) (h : ∀ x ∈ t, isShown x = true) :
      WrittenAs indent (writeLiteral indent t) (.scalar t false)

theorem closing_quoted (single : Bool) (w : Text) :
    closing (quoteOf single :: (w ++ [quoteOf single])) = ['\n'] := by
  rw [← List.cons_append, closing_concat, (isGap_quoteOf single).2]
  rfl

theorem closing_plain {w : Text} (hne : w ≠ []) (h : plainAllowed w = true) :
    closing w = ['\n'] := by
  obtain ⟨x, t, rfl⟩ := List.exists_cons_of_ne_nil hne
  have hline := (plainBegin_of_plainAllowed h).rest.oneLine _ (List.getLast_mem hne)
  rw [← List.dropLast_concat_getLast hne, closing_concat, hline]
  rfl

theorem getLast?_literalBody (n : Nat) (broken : Bool) (t : Text) :
    (literalBody n broken t).getLast? = t.getLast? := by
  induction t generalizing broken with
  | nil => rfl
  | cons x t ih =>
    unfold literalBody
    split <;> simp [List.getLast?_cons, List.getLast?_append, ih]

theorem closing_literal {n : Nat} {t : Text} (hne : t ≠ []) :
    closing (writeLiteral n t) = closing t := by
  have hbody : literalBody n true t ≠ [] := by
    have := length_le_literalBody n true t
    have := List.length_pos_iff.mpr hne
    exact List.ne_nil_of_length_pos (by omega)
  have hsplit : writeLiteral n t = ('|' :: (literalMarks t ++ ['\n'])) ++ literalBody n true t := by
    simp [writeLiteral]
  rw [hsplit, closing_append hbody]
  unfold closing
  rw [getLast?_literalBody]

theorem isLead_of_plainBegin {x : Char} {t : Text} (h : PlainBegin x t) : isLead x = true := by
  have hshown := h.rest.shown x (List.mem_cons_self ..)
  have hgap := isSpaceTab_of_isShown hshown h.noSpace
  refine Scanner.isLead_iff.mpr
    ⟨h.noSpace, ?_, ?_, ?_, ?_, h.rest.oneLine x (List.mem_cons_self ..)⟩
  · rintro rfl
    cases hgap
  · rintro rfl
    cases h.first
  · rintro rfl
    exact absurd hshown (by decide)
  · rintro rfl
    cases h.first

/-- A token begins with no gap. -/
theorem gap_of_isLead {x : Char} (h : isLead x = true) :
    isSpaceTab x = false ∧ isBreak x = false := by
  obtain ⟨hspace, htab, -, -, -, hbreak⟩ := Scanner.isLead_iff.mp h
  exact ⟨by simp [isSpaceTab, hspace, htab], hbreak⟩

namespace Scanner

variable {s s' : Scanner} {b : Blocks} {c c' : Cursor} {allowed allowed' keys : Bool} {column : Nat}
  {rest : Text} {t : Token}

/-- Behind a scalar no key can end on a later line. -/
theorem unkeyed_behindScalar {line : Nat} (hcolumn : b.indent ≠ (c.column : Int))
    (hline : c.line < line) : (behindScalar c c' allowed allowed' b t).Unkeyed line := by
  refine ⟨_, rfl, fun p hp => ?_⟩
  cases allowed with
  | false => cases hp
  | true =>
    obtain rfl := Option.some.inj hp
    exact ⟨decide_eq_false hcolumn, hline⟩

/-- Behind a space, no block is closed that is not indented further. -/
theorem stands_space (hc : c.rest = ' ' :: rest) (hindent : b.indent ≤ (c.column : Int))
    (hallowed : keys = true → allowed = true) :
    (standing c allowed b).Stands (c.column + 1) keys rest b :=
  ⟨.inl ⟨1, hc, rfl, hallowed, none, rfl, nofun⟩, b.close_of_le (by omega)⟩

/-- At the end of a line, the next token is on the next one. -/
theorem stands_line {next : Nat} (hc : c.rest = '\n' :: (List.replicate next ' ' ++ rest)) :
    (standing c allowed b).Stands next true rest (b.close next) :=
  ⟨.inr ⟨hc, none, rfl, nofun⟩, rfl⟩

/-- **A scalar is scanned** up to the line behind it. -/
theorem Stands.exists_scalar {parent next : Nat} {w : Text} (hw : WrittenAs (parent + 2) w t)
    (h : s.Stands column keys (w ++ (closing w ++ (List.replicate next ' ' ++ rest))) b)
    (hparent : b.indent = parent) (hcolumn : parent < column) (hnext : next ≤ parent)
    (hlead : ∀ x ∈ rest.head?, isLead x = true) :
    ∃ s', Scans w s s' ∧ s'.Stands next true rest ((b.add [t]).close next) := by
  have hgap : ∀ x ∈ rest.head?, isSpaceTab x = false ∧ isBreak x = false := fun x hx =>
    gap_of_isLead (hlead x hx)
  cases hw with
  | plain hne hplain =>
    rw [closing_plain hne hplain] at h
    obtain ⟨x, u, rfl⟩ := List.exists_cons_of_ne_nil hne
    obtain ⟨c, allowed, hc, hat, -, hstep⟩ := h.exists_step
      (isLead_of_plainBegin (plainBegin_of_plainAllowed hplain))
    have hends := @endsPlain_line (b.indent + 1).toNat next rest (by omega) hgap
    have hread := @readToken?_plain b c allowed x u _ _ _ hplain hends (by omega) hc
    have hrest : ∀ c : Cursor, (Cursor.skips
        ⟨List.replicate next ' ' ++ rest, c.index + 1, c.line + 1, 0⟩ next).rest = rest :=
      fun c => by rw [Cursor.rest_skips, List.drop_left' (by simp)]
    refine ⟨_, (hstep _ hread).mono (by simp), .inl ⟨0, hrest _, ?_, fun _ => rfl, ?_⟩, rfl⟩
    · exact Nat.zero_add _
    · exact unkeyed_behindScalar (by omega) (Nat.lt_succ_self _)
  | @quoted single v u hquoted hallowed =>
    rw [closing_quoted] at h
    obtain ⟨c, allowed, hc, hat, -, hstep⟩ := h.exists_step (by cases single <;> rfl)
    obtain ⟨c', hread, hbehind⟩ := @exists_readQuoted? single
      ('\n' :: (List.replicate next ' ' ++ rest)) c v u hquoted (by simp) (by rw [hc]; simp)
    have hrest : c'.rest = '\n' :: (List.replicate next ' ' ++ rest) := by
      rw [hbehind.rest, hc]
      simp
    refine ⟨_, (hstep _ (readToken?_quoted hc hread)).mono (by simp), .inr ⟨hrest, ?_⟩, rfl⟩
    exact unkeyed_behindScalar (by omega) (Nat.lt_succ_of_le hbehind.line)
  | @literal u hne hshown =>
    rw [closing_literal hne] at h
    obtain ⟨c, allowed, hc, hat, -, hstep⟩ := h.exists_step (by rfl)
    obtain ⟨c', hread, hrest, hcolumn'⟩ :=
      @exists_readBlock? u rest c next parent hne hshown hnext hgap hc
    rw [← hparent] at hread
    refine ⟨_, (hstep _ (readToken?_literal hc hread)).mono (by simp [writeLiteral]),
      .inl ⟨0, hrest, hcolumn', fun _ => rfl, none, rfl, nofun⟩, rfl⟩

/-! ### Keys and marks -/

/-- What was read last turns out to be a key at the colon: its token is put in front, and the block
of its map is opened. -/
theorem value?_behindScalar (hline : c'.line = c.line) (hindex : c'.index ≤ c.index + 1024) :
    (behindScalar c c' true false b t).value? =
      some (standing (c'.skips 1) false ((b.openMap c.column).add [.key, t, .value])) := by
  have hfresh : ¬(c.line < c'.line ∨ c.index + 1024 < c'.index) := by omega
  have hholds : (behindScalar c c' true false b t).placeHolds? (placeAt c b) = some true := by
    unfold placeHolds?
    exact if_neg hfresh
  have hplaces : (behindScalar c c' true false b t).places = [some (placeAt c b)] := rfl
  unfold value?
  rw [hplaces]
  simp only [hholds, Option.bind_some, if_true]
  have hlater : b.tokens.length + 1 + 1 - b.tokens.length = 2 := by omega
  by_cases hopen : (c.column : Int) ≤ b.indent <;>
    simp [insertToken, openBlock, Blocks.openMap, Blocks.add, standing, mark, emit, behindScalar,
      placeAt, hopen, Scanner.inFlow, hlater]

/-- At a token that no gap stands in front of, and that ends no block. -/
theorem run?_of_lead {x : Char} {tail : Text} {fuel : Nat} (hc : s.cursor.rest = x :: tail)
    (hlead : isLead x = true) (hstale : s.dropStale? = some s') (hcursor : s'.cursor = s.cursor)
    (hclose : s'.closeBlocks s'.cursor.column = s') :
    run? (fuel + 1) s = (s'.readToken? x).bind (run? fuel) := by
  have hskip : skipGaps (s.cursor.rest.length + 1) s = s := by
    rw [@skipGaps_spaces s (x :: tail) 0 (by rintro _ ⟨⟩; exact hlead) hc, Cursor.skips_zero]
  rw [hcursor] at hclose
  rw [run?, hskip, hstale]
  simp only [Option.bind_some, hcursor, hclose, Cursor.peek_of_rest hc]

theorem closeBlocks_of_le {column : Int} (hcolumn : s.indent ≤ column) :
    s.closeBlocks column = s := by
  unfold closeBlocks
  split
  · rfl
  · have hblocks := Blocks.close_of_le (b := s.blocks) hcolumn
    show { s with
      outer := (s.blocks.close column).outer
      indent := (s.blocks.close column).indent
      tokens := (s.blocks.close column).tokens } = s
    rw [hblocks]
    rfl

/-- At the colon behind a key. -/
theorem run?_behindScalar {y : Char} {tail : Text} {fuel : Nat} (hc : c'.rest = ':' :: y :: tail)
    (hy : isSpaceTab y = true ∨ isBreak y = true) (hline : c'.line = c.line)
    (hindex : c'.index ≤ c.index + 1024) (hcolumn : b.indent ≤ (c'.column : Int)) :
    run? (fuel + 1) (behindScalar c c' true false b t) =
      run? fuel (standing (c'.skips 1) false ((b.openMap c.column).add [.key, t, .value])) := by
  let r := behindScalar c c' true false b t
  have hstale : r.dropStale? = some r := by
    have hfresh : ¬(c.line < c'.line ∨ c.index + 1024 < c'.index) := by omega
    have hholds : r.placeHolds? (placeAt c b) = some true := if_neg hfresh
    have hplaces : r.places = [some (placeAt c b)] := rfl
    unfold dropStale?
    rw [hplaces]
    simp only [List.mapM_cons, List.mapM_nil, hholds]
    rfl
  have hread : r.readToken? ':' = r.value? := by
    have hahead : c'.ahead 1 = some y := by unfold Cursor.ahead; rw [hc]; rfl
    have hend : isGapOrEnd (some y) = true := by rcases hy with hy | hy <;> simp [isGapOrEnd, hy]
    unfold readToken?
    simp [r, behindScalar, standing, seesTriple_of_rest hc, hahead, hend]
  rw [run?_of_lead hc rfl hstale rfl (closeBlocks_of_le hcolumn), hread,
    value?_behindScalar hline hindex, Option.bind_some]

/-- **A scalar on one line turns out to be a key** at the colon behind it. -/
theorem exists_key_of_scans {x y : Char} {w tail : Text} (hx : w.head? = some x)
    (hshort : Text.byteLength w ≤ 1024) (hy : isSpaceTab y = true ∨ isBreak y = true)
    (hc : c.rest = w ++ ':' :: y :: tail) (hcolumn : b.indent ≤ (c.column : Int))
    (hscans : Scans [x] s (behindScalar c (c.skips w.length) true false b t)) :
    ∃ c' : Cursor, c'.rest = y :: tail ∧ c.column < c'.column ∧
      Scans (w ++ [':']) s (standing c' false ((b.openMap c.column).add [.key, t, .value])) := by
  have hrest : (c.skips w.length).rest = ':' :: y :: tail := by
    rw [Cursor.rest_skips, hc, List.drop_left]
  have hindex : (c.skips w.length).index = c.index + Text.byteLength w := by
    show c.index + Text.byteLength (c.rest.take _) = _
    rw [hc, List.take_left]
  have hpos : 1 ≤ w.length := by
    cases w with
    | nil => cases hx
    | cons => simp
  refine ⟨(c.skips w.length).skips 1, by rw [Cursor.rest_skips, hrest]; rfl, ?_, ?_⟩
  · simp only [Cursor.column_skips]
    omega
  · refine (hscans.mono hpos).append ⟨1, Nat.le_refl _, fun fuel => ?_⟩
    rw [Nat.add_comm]
    exact run?_behindScalar hrest hy rfl (by omega) (by rw [Cursor.column_skips]; omega)

/-- **A key is scanned** together with its colon. -/
theorem Stands.exists_key {n : Nat} {w tail : Text} {y : Char} (hw : WrittenAs n w t)
    (hline : w.any isBreak = false) (hshort : Text.byteLength w ≤ 1024)
    (hy : isSpaceTab y = true ∨ isBreak y = true)
    (h : s.Stands column true (w ++ ':' :: y :: tail) b) (hcolumn : b.indent ≤ (column : Int)) :
    ∃ c : Cursor, c.rest = y :: tail ∧ column < c.column ∧
      Scans (w ++ [':']) s (standing c false ((b.openMap column).add [.key, t, .value])) := by
  cases hw with
  | plain hne hplain =>
    obtain ⟨x, u, rfl⟩ := List.exists_cons_of_ne_nil hne
    obtain ⟨c, allowed, hc, rfl, hallowed, hstep⟩ := h.exists_step
      (isLead_of_plainBegin (plainBegin_of_plainAllowed hplain))
    obtain rfl := hallowed rfl
    have hread := @readToken?_plain b c true x u _ _ _ hplain (endsPlain_colon hy _) (by omega) hc
    exact exists_key_of_scans rfl hshort hy hc hcolumn (hstep _ hread)
  | @quoted single v u hquoted hallowed =>
    obtain ⟨c, allowed, hc, rfl, hallowed, hstep⟩ := h.exists_step (by cases single <;> rfl)
    obtain rfl := hallowed rfl
    obtain ⟨c', hread, hbehind⟩ := @exists_readQuoted? single (':' :: y :: tail) c v u hquoted
      (by simp) (by rw [hc]; simp)
    rw [hbehind.sameLine hline] at hread
    exact exists_key_of_scans rfl hshort hy hc hcolumn (hstep _ (readToken?_quoted hc hread))
  | @literal u hne hshown =>
    -- there is a break behind the marks of a block
    simp [writeLiteral, isBreak] at hline

/-- **The mark of a key or of a value is scanned**, and the map's block is opened. -/
theorem Stands.exists_mark {x : Char} (hx : (x, t) ∈ [('?', Token.key), (':', .value)])
    (h : s.Stands column true (x :: ' ' :: rest) b) (hcolumn : b.indent ≤ (column : Int)) :
    ∃ s', Scans [x] s s' ∧ s'.Stands (column + 2) true rest ((b.openMap column).add [t]) := by
  simp only [List.mem_cons, Prod.mk.injEq, List.not_mem_nil, or_false] at hx
  obtain ⟨c, allowed, hc, hat, hallowed, hstep⟩ := h.exists_step (by
    rcases hx with ⟨rfl, -⟩ | ⟨rfl, -⟩ <;> rfl)
  obtain rfl := hallowed rfl
  have hread : (standing c true b).readToken? x =
      some (standing (c.skips 1) true ((b.openMap column).add [t])) := by
    have hahead : c.ahead 1 = some ' ' := by unfold Cursor.ahead; rw [hc]; rfl
    unfold readToken?
    rcases hx with ⟨rfl, rfl⟩ | ⟨rfl, rfl⟩ <;>
      by_cases hopen : (column : Int) ≤ b.indent <;>
        simp [standing, seesTriple_of_rest hc, hahead, isGapOrEnd, isSpaceTab, key?, value?,
          value?.plain, openBlock, forgetKey?, mark, emit, Blocks.openMap, Blocks.add,
          Scanner.inFlow, hat, hopen]
  have hspace := @stands_space ((b.openMap column).add [t]) (c.skips 1) true true rest
    (by rw [Cursor.rest_skips, hc]; rfl) (by
      rw [Blocks.indent_add, Blocks.indent_openMap hcolumn, Cursor.column_skips]
      omega) (fun _ => rfl)
  rw [Cursor.column_skips, hat] at hspace
  exact ⟨_, hstep _ hread, hspace⟩

/-- **The mark of an item is scanned**; a list is no block if it is not indented further. -/
theorem Stands.exists_dash (h : s.Stands column true ('-' :: ' ' :: rest) b)
    (hcolumn : b.indent = (column : Int)) :
    ∃ s', Scans ['-'] s s' ∧ s'.Stands (column + 2) true rest (b.add [.blockEntry]) := by
  obtain ⟨c, allowed, hc, hat, hallowed, hstep⟩ := h.exists_step rfl
  obtain rfl := hallowed rfl
  have hread : (standing c true b).readToken? '-' =
      some (standing (c.skips 1) true (b.add [.blockEntry])) := by
    have h1 : c.ahead 1 = some ' ' := by unfold Cursor.ahead; rw [hc]; rfl
    have htriple : c.seesTriple '-' = false := by simp [Cursor.seesTriple, h1]
    unfold readToken?
    simp [standing, htriple, seesTriple_of_rest hc, h1, isGapOrEnd, isSpaceTab, blockEntry?,
      openBlock, forgetKey?, mark, emit, Blocks.add, Scanner.inFlow, hat, hcolumn]
  have hspace := @stands_space (b.add [.blockEntry]) (c.skips 1) true true rest
    (by rw [Cursor.rest_skips, hc]; rfl) (by rw [Blocks.indent_add, Cursor.column_skips]; omega)
    (fun _ => rfl)
  rw [Cursor.column_skips, hat] at hspace
  exact ⟨_, hstep _ hread, hspace⟩

/-- The scanner behind the mark that opens a list, where a key may have begun in front of it. -/
def inList (c : Cursor) (b : Blocks) (place : Option KeyPlace) : Scanner :=
  { standing c true (b.add [.flowSequenceStart]) with places := [none, place] }

/-- A list is opened. -/
theorem readToken?_open (hc : c.rest = '[' :: rest) :
    (standing c allowed b).readToken? '[' =
      some (inList (c.skips 1) b (if allowed then some (placeAt c b) else none)) := by
  have hflow : (standing c allowed b).openFlow? .flowSequenceStart =
      some (inList (c.skips 1) b (if allowed then some (placeAt c b) else none)) := by
    unfold openFlow?
    rw [rememberKey?_standing]
    rfl
  rw [← hflow]
  unfold readToken?
  simp [standing, seesTriple_of_rest hc]

/-- A list is closed where it was opened. -/
theorem scans_close {place : Option KeyPlace} (hc : c.rest = ']' :: rest)
    (hindent : b.indent ≤ (c.column : Int)) (hplace : ∀ p, place = some p → p.required = false) :
    Scans [']'] (inList c b place)
      { standing (c.skips 1) false (b.add [.flowSequenceStart, .flowSequenceEnd]) with
        places := [place.filter (·.holdsAt c)] } := by
  have hstale : (inList c b place).dropStale? = some ((inList c b place).readyAt c) :=
    dropStale?_of_optional fun p hp => by
      have hp : some p ∈ [none, place] := hp
      have hp : some p = place := by simpa using hp
      exact hplace p hp.symm
  have hclose : ((inList c b place).readyAt c).readToken? ']' =
      some { standing (c.skips 1) false (b.add [.flowSequenceStart, .flowSequenceEnd]) with
        places := [place.filter (·.holdsAt c)] } := by
    unfold readToken?
    simp [inList, readyAt, standing, seesTriple_of_rest hc, closeFlow?, forgetKey?, mark, emit,
      Scanner.inFlow, Blocks.add]
  refine ⟨1, Nat.le_refl _, fun fuel => ?_⟩
  rw [Nat.add_comm, run?_of_lead hc rfl hstale rfl (closeBlocks_of_le hindent), hclose,
    Option.bind_some]

/-- **An empty list is scanned**, together with the end of its line. -/
theorem Stands.exists_empty {next : Nat}
    (h : s.Stands column keys ('[' :: ']' :: '\n' :: (List.replicate next ' ' ++ rest)) b)
    (hcolumn : b.indent < (column : Int)) :
    ∃ s', Scans ['[', ']'] s s' ∧
      s'.Stands next true rest ((b.add [.flowSequenceStart, .flowSequenceEnd]).close next) := by
  obtain ⟨c, allowed, hc, rfl, -, hstep⟩ := h.exists_step rfl
  have hrest : (c.skips 1).rest = ']' :: '\n' :: (List.replicate next ' ' ++ rest) := by
    rw [Cursor.rest_skips, hc]
    rfl
  have hplace : ∀ p, (if allowed then some (placeAt c b) else none) = some p →
      p.required = false ∧ p.line = c.line := fun p hp => by
    cases allowed with
    | false => cases hp
    | true =>
      obtain rfl := Option.some.inj hp
      exact ⟨decide_eq_false (by omega), rfl⟩
  have hclose := @scans_close b (c.skips 1) _ _ hrest (by rw [Cursor.column_skips]; omega)
    fun p hp => (hplace p hp).1
  refine ⟨_, (hstep _ (readToken?_open hc)).append hclose, .inr ⟨?_, _, rfl, fun p hp => ?_⟩, rfl⟩
  · show ((c.skips 1).skips 1).rest = _
    rw [Cursor.rest_skips, hrest]
    rfl
  · obtain ⟨hrequired, hline⟩ := hplace p (Option.filter_eq_some_iff.mp hp).1
    exact ⟨hrequired, by rw [hline]; exact Nat.lt_succ_self _⟩

/-! ### Whole texts -/

theorem stands_start (t : Text) : (start t).Stands 0 true t .none :=
  ⟨.inl ⟨0, rfl, rfl, fun _ => rfl, Option.none, rfl, nofun⟩, rfl⟩

/-- At the end of the text all blocks are closed. -/
theorem Stands.exists_finish (h : s.Stands column keys [] b) :
    ∃ s', s'.tokens = (b.close (-1)).tokens ∧ ∀ fuel, run? (fuel + 1) s = some s' := by
  obtain ⟨c, allowed, -, -, -, hrun⟩ := h.exists_run? (by simp)
  have hfinish : ∃ c',
      (standing c allowed b).finish? = some (standing c' allowed (b.close (-1))) := by
    unfold finish?
    by_cases hcolumn : c.column = 0
    · exact ⟨c, by simp only [standing, hcolumn, if_true]; rfl⟩
    · exact ⟨{ c with column := 0, line := c.line + 1 }, by
        simp only [standing, hcolumn, if_false]; rfl⟩
  -- no key is left to be ended, so none is missing
  obtain ⟨c', hfinish⟩ := hfinish
  exact ⟨_, rfl, fun fuel => (hrun fuel).trans hfinish⟩

end Scanner

end NotePress.Yaml
