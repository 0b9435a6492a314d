import NotePress.Proofs.FlowScan
import NotePress.Proofs.Lists

/-!
# Steps of the scanner in flow collections

All of a JSON text stands inside of one flow collection, where line breaks are gaps, no block is
opened or closed, and no key has to end on its line. `Scanner.InFlow` says so of a scanner, together
with what stands ahead of it and what it has found. Each part of JSON has its step: from a scanner
that is `InFlow` in front of the part, `Scans` leads to one behind it that has found the part's
tokens (`InFlow.opens`, `InFlow.closes`, `InFlow.comma`, `InFlow.key`, `InFlow.quoted`,
`InFlow.bare`).

A key is a text that a colon follows. Its token is put in front of the text when the colon is met,
at the place that was remembered where the text began, unless the text has more than 1024 bytes.
-/

namespace NotePress.Yaml

/-- Whether a key that began at a place can end at a cursor. -/
def KeyPlace.holdsAt (p : KeyPlace) (c : Cursor) : Bool :=
  !(decide (p.line < c.line) || decide (p.index + 1024 < c.index))

/-- A gap is spaces, and then nothing or a line break and another gap. -/
theorem IsGap.split {gap : Text} (h : IsGap gap) : ∃ spaces later, gap = spaces ++ later ∧
    (∀ c ∈ spaces, c = ' ') ∧ (later = [] ∨ ∃ gap', later = '\n' :: gap' ∧ IsGap gap') := by
  induction gap with
  | nil => exact ⟨[], [], rfl, by simp, .inl rfl⟩
  | cons c gap ih =>
    obtain ⟨rfl | rfl, hgap⟩ := List.forall_mem_cons.mp h
    · obtain ⟨spaces, later, rfl, hspaces, hlater⟩ := ih hgap
      exact ⟨' ' :: spaces, later, rfl, List.forall_mem_cons.mpr ⟨rfl, hspaces⟩, hlater⟩
    · exact ⟨[], '\n' :: gap, rfl, by simp, .inr ⟨gap, rfl, hgap⟩⟩

/-- A character at which a token begins: no gap, and no mark of a comment or a directive. -/
def isLead (x : Char) : Bool :=
  !(x = ' ' || x = '\t' || x = '#' || x = '\ufeff' || x = '%' || isBreak x)

namespace Scanner

variable {s s' : Scanner} {depth : Nat} {keys : Bool} {rest tail : Text} {tokens : List Token}

/-! ### Between tokens -/

theorem isLead_iff {x : Char} : isLead x = true ↔
    x ≠ ' ' ∧ x ≠ '\t' ∧ x ≠ '#' ∧ x ≠ '\ufeff' ∧ x ≠ '%' ∧ isBreak x = false := by
  simp [isLead, and_assoc]

/-- Past the spaces of a gap there is its break, or else the next token. -/
theorem skipGaps_succ {spaces later : Text} (hspaces : ∀ c ∈ spaces, c = ' ')
    (hlater : ∀ x ∈ later.head?, x = '\n' ∨ isLead x = true)
    (hc : s.cursor.rest = spaces ++ later) (fuel : Nat) :
    skipGaps (fuel + 1) s =
      let c := s.cursor.skips spaces.length
      if isBreakAt c.peek then
        skipGaps fuel
          { s with cursor := c.takeBreak.2, keyAllowed := if s.inFlow then s.keyAllowed else true }
      else { s with cursor := c } := by
  have hheads : ∀ x ∈ later.head?, x ≠ ' ' ∧ x ≠ '\t' ∧ x ≠ '#' ∧ x ≠ '\ufeff' := fun x hx => by
    rcases hlater x hx with rfl | hlead
    · decide
    · obtain ⟨h1, h2, h3, h4, -⟩ := isLead_iff.mp hlead
      exact ⟨h1, h2, h3, h4⟩
  have hmark : s.cursor.sees '\ufeff' = false := by
    have hne : s.cursor.peek ≠ some '\ufeff' := by
      unfold Cursor.peek
      rw [hc]
      intro hpeek
      cases spaces with
      | nil => exact (hheads _ hpeek).2.2.2 rfl
      | cons c spaces =>
        have := hspaces c (List.mem_cons_self ..)
        simp_all
    simp [Cursor.sees, hne]
  have hdrop : s.cursor.dropWhile (fun x => x = ' ' || (s.inFlow || !s.keyAllowed) && x = '\t') =
      s.cursor.skips spaces.length := by
    have hstop : later.takeWhile
        (fun x => x = ' ' || (s.inFlow || !s.keyAllowed) && x = '\t') = [] := by
      cases later with
      | nil => rfl
      | cons x later => simp [hheads x rfl]
    unfold Cursor.dropWhile Cursor.takeWhile
    simp only [hc]
    rw [List.takeWhile_append_of_pos (fun x hx => by simp [hspaces x hx]), hstop, List.append_nil]
  have hcomment : (s.cursor.skips spaces.length).sees '#' = false := by
    have hne : (s.cursor.skips spaces.length).peek ≠ some '#' := by
      unfold Cursor.peek
      rw [Cursor.rest_skips, hc, List.drop_left]
      exact fun hpeek => (hheads _ hpeek).2.2.1 rfl
    simp [Cursor.sees, hne]
  rw [skipGaps]
  simp only [hmark, Bool.false_eq_true, and_false, if_false, hdrop, hcomment]

/-- **Gaps are skipped** inside of flow collections; outside of them none may stand there. -/
theorem exists_skipGaps {gap : Text} {fuel : Nat} (hgap : IsGap gap)
    (hflow : s.inFlow = true ∨ gap = []) (hlead : ∀ x ∈ rest.head?, isLead x = true)
    (hc : s.cursor.rest = gap ++ rest) (hfuel : gap.length < fuel) :
    ∃ c, skipGaps fuel s = { s with cursor := c } ∧ c.rest = rest ∧ (gap = [] → c = s.cursor) := by
  induction fuel generalizing s gap with
  | zero => omega
  | succ fuel ih =>
    obtain ⟨spaces, later, rfl, hspaces, rfl | ⟨gap', rfl, hgap'⟩⟩ := hgap.split
    · rw [List.append_nil] at hc
      have hrest : (s.cursor.skips spaces.length).rest = rest := by
        rw [Cursor.rest_skips, hc, List.drop_left]
      have hbreak : isBreakAt (s.cursor.skips spaces.length).peek = false := by
        unfold Cursor.peek
        rw [hrest]
        cases rest with
        | nil => rfl
        | cons x rest => exact (isLead_iff.mp (hlead x rfl)).2.2.2.2.2
      refine ⟨_, ?_, hrest, fun hnil => ?_⟩
      · rw [skipGaps_succ hspaces (fun x hx => .inr (hlead x hx)) hc]
        simp only [hbreak, Bool.false_eq_true, if_false]
      · rw [List.append_nil] at hnil
        rw [hnil]
        rfl
    · have hin : s.inFlow = true := hflow.resolve_right (by simp)
      rw [List.append_assoc, List.cons_append] at hc
      have hrest : (s.cursor.skips spaces.length).rest = '\n' :: (gap' ++ rest) := by
        rw [Cursor.rest_skips, hc, List.drop_left]
      have hbreak : (s.cursor.skips spaces.length).takeBreak.2.rest = gap' ++ rest := by
        unfold Cursor.takeBreak
        rw [hrest]
        rfl
      obtain ⟨c, hskip, hrest', -⟩ := @ih
        { s with cursor := (s.cursor.skips spaces.length).takeBreak.2 } gap' hgap' (.inl hin) hbreak
        (by simp only [List.length_append, List.length_cons] at hfuel; omega)
      refine ⟨c, ?_, hrest', fun hnil => by simp at hnil⟩
      rw [skipGaps_succ hspaces (by rintro _ ⟨⟩; exact .inl rfl) hc]
      simp only [Cursor.peek_of_rest hrest, hin, if_true, hskip]
      rfl

/-! ### Inside of flow collections -/

/-- **The scanner stands in front of a text** inside of so many flow collections, and outside of
any block; `keys` asks that a key may begin here. -/
structure InFlow (s : Scanner) (depth : Nat) (keys : Bool) (rest : Text) (tokens : List Token) :
    Prop where
  ahead : ∃ gap, IsGap gap ∧ (depth = 0 → gap = []) ∧ s.cursor.rest = gap ++ rest
  tokens : s.tokens = tokens
  places : s.places.length = depth + 1
  optional : ∀ p, some p ∈ s.places → p.required = false
  outer : s.outer = []
  indent : s.indent = -1
  keys : keys = true → s.keyAllowed = true

theorem InFlow.anyKeys (h : s.InFlow depth keys rest tokens) : s.InFlow depth false rest tokens :=
  { h with keys := nofun }

theorem InFlow.inFlow (h : s.InFlow (depth + 1) keys rest tokens) : s.inFlow = true := by
  simp [Scanner.inFlow, h.places]

/-- The scanner behind a gap, where the places of keys that cannot end any more are forgotten. -/
def readyAt (s : Scanner) (c : Cursor) : Scanner :=
  { s with cursor := c, places := s.places.map fun place => place.filter (·.holdsAt c) }

theorem dropStale?_of_optional (h : ∀ p, some p ∈ s.places → p.required = false) :
    s.dropStale? = some (s.readyAt s.cursor) := by
  unfold dropStale?
  rw [mapM_eq_some_map (k := fun place => place.filter (·.holdsAt s.cursor))]
  · rfl
  · rintro (_ | p) hp
    · rfl
    · have hp : p.required = false := h p hp
      by_cases hstale : p.line < s.cursor.line ∨ p.index + 1024 < s.cursor.index
      · have hgone : p.holdsAt s.cursor = false := by
          simpa [KeyPlace.holdsAt] using fun h => by omega
        simp [placeHolds?, hstale, hp, Option.filter, hgone]
      · have hkept : p.holdsAt s.cursor = true := by
          simp [KeyPlace.holdsAt]
          omega
        simp [placeHolds?, hstale, Option.filter, hkept]

/-- Outside of any block, none is closed. -/
theorem closeBlocks_of_outer (h : s.outer = []) (column : Int) : s.closeBlocks column = s := by
  unfold closeBlocks
  split
  · rfl
  · simp only [h, closeBlocks.go]
    rw [← h]

/-- **The next token begins behind the gap.** -/
theorem InFlow.exists_run? (h : s.InFlow depth keys rest tokens)
    (hlead : ∀ x ∈ rest.head?, isLead x = true) :
    ∃ c, c.rest = rest ∧ (s.cursor.rest = rest → c = s.cursor) ∧
      ∀ fuel, run? (fuel + 1) s = match rest.head? with
        | none => (s.readyAt c).finish?
        | some x => ((s.readyAt c).readToken? x).bind (run? fuel) := by
  obtain ⟨gap, hgap, hdepth, hc⟩ := h.ahead
  have hflow : s.inFlow = true ∨ gap = [] := by
    cases depth with
    | zero => exact .inr (hdepth rfl)
    | succ depth => exact .inl h.inFlow
  obtain ⟨c, hskip, hrest, hsame⟩ := exists_skipGaps hgap hflow hlead hc
    (show gap.length < s.cursor.rest.length + 1 by rw [hc, List.length_append]; omega)
  refine ⟨c, hrest, fun heq => hsame ?_, fun fuel => ?_⟩
  · rw [hc] at heq
    simpa using heq
  · have hstale : ({ s with cursor := c } : Scanner).dropStale? = some (s.readyAt c) :=
      dropStale?_of_optional h.optional
    have hpeek : (s.readyAt c).cursor.peek = rest.head? := by
      show c.rest.head? = _
      rw [hrest]
    have hblocks : ∀ column, (s.readyAt c).closeBlocks column = s.readyAt c :=
      closeBlocks_of_outer h.outer
    rw [run?, hskip]
    cases hhead : rest.head? <;> simp only [hstale, Option.bind_some, hblocks, hpeek, hhead]

/-- What is known of a scanner stays known behind the gap. -/
theorem InFlow.readyAt {c : Cursor} (h : s.InFlow depth keys rest tokens) (hc : c.rest = rest) :
    (s.readyAt c).InFlow depth keys rest tokens where
  ahead := ⟨[], isGap_nil, fun _ => rfl, hc⟩
  tokens := h.tokens
  places := by simp [Scanner.readyAt, h.places]
  optional := by
    intro p hp
    obtain ⟨place, hplace, hfilter⟩ := List.mem_map.mp hp
    obtain ⟨rfl, -⟩ := Option.filter_eq_some_iff.mp hfilter
    exact h.optional p hplace
  outer := h.outer
  indent := h.indent
  keys := h.keys

theorem InFlow.skipGap {gap : Text} (h : s.InFlow (depth + 1) keys (gap ++ rest) tokens)
    (hgap : IsGap gap) : s.InFlow (depth + 1) keys rest tokens := by
  obtain ⟨before, hbefore, -, hc⟩ := h.ahead
  refine { h with ahead := ⟨before ++ gap, ?_, nofun, by rw [hc, List.append_assoc]⟩ }
  exact fun c hmem => (List.mem_append.mp hmem).elim (hbefore c) (hgap c)

/-! ### Steps -/

/-- **A text is scanned** in no more steps than it has characters. -/
def Scans (text : Text) (s s' : Scanner) : Prop :=
  ∃ n ≤ text.length, ∀ fuel, run? (n + fuel) s = run? fuel s'

theorem Scans.append {t u : Text} {s'' : Scanner} (h : Scans t s s') (h' : Scans u s' s'') :
    Scans (t ++ u) s s'' := by
  obtain ⟨m, hm, hrun⟩ := h
  obtain ⟨n, hn, hrun'⟩ := h'
  refine ⟨m + n, by rw [List.length_append]; omega, fun fuel => ?_⟩
  rw [Nat.add_assoc, hrun, hrun']

theorem Scans.mono {t u : Text} (h : Scans t s s') (hle : t.length ≤ u.length) : Scans u s s' := by
  obtain ⟨n, hn, hrun⟩ := h
  exact ⟨n, Nat.le_trans hn hle, hrun⟩

/-- **A token is read behind the gap**, in one step. -/
theorem InFlow.exists_ready {x : Char} (h : s.InFlow depth keys (x :: rest) tokens)
    (hlead : isLead x = true) : ∃ r : Scanner, r.InFlow depth keys (x :: rest) tokens ∧
      r.cursor.rest = x :: rest ∧ ∀ s', r.readToken? x = some s' → Scans [x] s s' := by
  obtain ⟨c, hc, -, hrun⟩ := h.exists_run? (by rintro _ ⟨⟩; exact hlead)
  refine ⟨s.readyAt c, h.readyAt hc, hc, fun s' hs' => ⟨1, Nat.le_refl _, fun fuel => ?_⟩⟩
  rw [Nat.add_comm, hrun]
  simp only [List.head?_cons, hs', Option.bind_some]

/-- The place of the innermost key is forgotten: none has to be one. -/
theorem InFlow.exists_forgetKey? (h : s.InFlow depth keys rest tokens) :
    ∃ places, s.forgetKey? = some { s with places } ∧ places.length = depth + 1 ∧
      (∀ p, some p ∈ places → p.required = false) := by
  have hlength := h.places
  have hoptional := h.optional
  unfold forgetKey?
  split
  · rename_i p places heq
    rw [heq] at hlength hoptional
    rw [hoptional p (List.mem_cons_self ..)]
    refine ⟨none :: places, rfl, hlength, fun q hq => hoptional q ?_⟩
    rcases List.mem_cons.mp hq with hq | hq
    · cases hq
    · exact List.mem_cons_of_mem _ hq
  · exact ⟨s.places, rfl, hlength, hoptional⟩

/-- A key may begin here, and need not. -/
theorem InFlow.exists_rememberKey? (h : s.InFlow depth keys rest tokens) :
    ∃ places, s.rememberKey? = some { s with places } ∧ places.length = depth + 1 ∧
      (∀ p, some p ∈ places → p.required = false) ∧
      (keys = true → places.head? =
        some (some ⟨false, tokens.length, s.cursor.line, s.cursor.index, s.cursor.column⟩)) := by
  unfold rememberKey?
  split
  · obtain ⟨places, hforget, hlength, hoptional⟩ := h.exists_forgetKey?
    have hindent : ¬(-1 : Int) = (s.cursor.column : Int) := by omega
    have hrequired : ∀ b, (!b && decide (s.indent = (s.cursor.column : Int))) = false := by
      simp [h.indent, hindent]
    rw [hforget]
    refine ⟨_ :: places.tail, rfl, ?_, ?_, fun _ => ?_⟩
    · rw [List.length_cons, List.length_tail, hlength]
      rfl
    · intro p hp
      rcases List.mem_cons.mp hp with hp | hp
      · cases hp
        exact hrequired _
      · exact hoptional p (List.mem_of_mem_tail hp)
    · rw [List.head?_cons, hrequired, ← h.tokens]
  · rename_i hnot
    exact ⟨s.places, rfl, h.places, h.optional, fun hkeys => absurd (h.keys hkeys) hnot⟩

/-! ### Marks -/

theorem seesTriple_of_rest {c : Cursor} {x y : Char} (hc : c.rest = x :: rest) (hne : x ≠ y) :
    c.seesTriple y = false := by
  simp [Cursor.seesTriple, Cursor.peek_of_rest hc, hne]

/-- **Behind a token**: it is found, and the scanner stands in front of what is left. -/
theorem InFlow.found {c : Cursor} {places : List (Option KeyPlace)} {before : Text} {depth' : Nat}
    {keys' allowed : Bool} (h : s.InFlow depth keys before tokens) (hc : c.rest = rest)
    (hlength : places.length = depth' + 1) (hoptional : ∀ p, some p ∈ places → p.required = false)
    (hkeys : keys' = true → allowed = true) (t : Token) :
    ({ s with cursor := c, tokens := t :: s.tokens, keyAllowed := allowed, places } :
      Scanner).InFlow depth' keys' rest (t :: tokens) where
  ahead := ⟨[], isGap_nil, fun _ => rfl, hc⟩
  tokens := congrArg (t :: ·) h.tokens
  places := hlength
  optional := hoptional
  outer := h.outer
  indent := h.indent
  keys := hkeys

/-- Behind a mark. -/
theorem InFlow.mark {x : Char} {places : List (Option KeyPlace)} {depth' : Nat} {t : Token}
    (h : s.InFlow depth keys (x :: rest) tokens) (hc : s.cursor.rest = x :: rest)
    (hlength : places.length = depth' + 1) (hoptional : ∀ p, some p ∈ places → p.required = false)
    (keys' : Bool) :
    ({ s with places }.mark t 1 keys').InFlow depth' keys' rest (t :: tokens) :=
  h.found (by rw [Cursor.rest_skips, hc]; rfl) hlength hoptional id t

/-- **A collection is opened.** -/
theorem InFlow.opens {x : Char} {t : Token} (h : s.InFlow depth keys (x :: rest) tokens)
    (hx : (x, t) ∈ [('[', Token.flowSequenceStart), ('\x7b', .flowMappingStart)]) :
    ∃ s', Scans [x] s s' ∧ s'.InFlow (depth + 1) true rest (t :: tokens) := by
  obtain ⟨r, hr, hc, hscans⟩ := h.exists_ready (by
    simp only [List.mem_cons, Prod.mk.injEq, List.not_mem_nil, or_false] at hx
    rcases hx with ⟨rfl, -⟩ | ⟨rfl, -⟩ <;> rfl)
  obtain ⟨places, hremember, hlength, hoptional, -⟩ := hr.exists_rememberKey?
  refine ⟨({ r with places := none :: places }).mark t 1 true, hscans _ ?_,
    hr.mark hc (by rw [List.length_cons, hlength]) ?_ true⟩
  · have hopen : r.openFlow? t = some (({ r with places := none :: places }).mark t 1 true) := by
      unfold openFlow?
      rw [hremember]
      rfl
    rw [← hopen]
    simp only [List.mem_cons, Prod.mk.injEq, List.not_mem_nil, or_false] at hx
    unfold readToken?
    rcases hx with ⟨rfl, rfl⟩ | ⟨rfl, rfl⟩ <;>
      simp [seesTriple_of_rest hc]
  · intro p hp
    rcases List.mem_cons.mp hp with hp | hp
    · cases hp
    · exact hoptional p hp

/-- **A collection is closed.** -/
theorem InFlow.closes {x : Char} {t : Token} (h : s.InFlow (depth + 1) keys (x :: rest) tokens)
    (hx : (x, t) ∈ [(']', Token.flowSequenceEnd), ('\x7d', .flowMappingEnd)]) :
    ∃ s', Scans [x] s s' ∧ s'.InFlow depth false rest (t :: tokens) := by
  obtain ⟨r, hr, hc, hscans⟩ := h.exists_ready (by
    simp only [List.mem_cons, Prod.mk.injEq, List.not_mem_nil, or_false] at hx
    rcases hx with ⟨rfl, -⟩ | ⟨rfl, -⟩ <;> rfl)
  obtain ⟨places, hforget, hlength, hoptional⟩ := hr.exists_forgetKey?
  refine ⟨({ r with places := places.tail }).mark t 1 false, hscans _ ?_,
    hr.mark hc (by rw [List.length_tail, hlength]; rfl)
      (fun p hp => hoptional p (List.mem_of_mem_tail hp)) false⟩
  have hclose : r.closeFlow? t = some (({ r with places := places.tail }).mark t 1 false) := by
    have hin : ({ r with places := places } : Scanner).inFlow = true := by
      simp [Scanner.inFlow, hlength]
    unfold closeFlow?
    rw [hforget, Option.map_some, hin]
    rfl
  rw [← hclose]
  simp only [List.mem_cons, Prod.mk.injEq, List.not_mem_nil, or_false] at hx
  unfold readToken?
  rcases hx with ⟨rfl, rfl⟩ | ⟨rfl, rfl⟩ <;> simp [seesTriple_of_rest hc]

/-- **A comma is read**; a key may begin behind it. -/
theorem InFlow.comma (h : s.InFlow depth keys (',' :: rest) tokens) :
    ∃ s', Scans [','] s s' ∧ s'.InFlow depth true rest (.flowEntry :: tokens) := by
  obtain ⟨r, hr, hc, hscans⟩ := h.exists_ready rfl
  obtain ⟨places, hforget, hlength, hoptional⟩ := hr.exists_forgetKey?
  refine ⟨_, hscans _ ?_, hr.mark hc hlength hoptional true⟩
  unfold readToken?
  simp [seesTriple_of_rest hc, hforget]

/-! ### Scalars and keys -/

/-- Behind a text in quotes; the place where it began may be that of a key. -/
theorem InFlow.exists_quoted {t : Text}
    (h : s.InFlow depth keys (Json.writeText t ++ rest) tokens) (ht : Legible t) :
    ∃ (s' : Scanner) (c : Cursor), Scans (Json.writeText t) s s' ∧
      s'.InFlow depth false rest (.scalar t false :: tokens) ∧
      c.rest = Json.writeText t ++ rest ∧ s'.cursor = c.skips (Json.writeText t).length ∧
      (keys = true → s'.places.head? =
        some (some ⟨false, tokens.length, c.line, c.index, c.column⟩)) := by
  obtain ⟨r, hr, hc, hscans⟩ := @InFlow.exists_ready _ _ _ _ _ '"' h rfl
  have hquoted : r.cursor.rest = Json.writeText t ++ rest := hc
  obtain ⟨places, hremember, hlength, hoptional, hplace⟩ := hr.exists_rememberKey?
  let s' : Scanner := { r with
    cursor := r.cursor.skips (Json.writeText t).length, tokens := .scalar t false :: r.tokens,
    keyAllowed := false, places := places }
  have hread : r.readToken? '"' = some s' := by
    have hnamed : r.named? (fun c => (readQuoted? false c).map fun p => (.scalar p.1 false, p.2)) =
        some s' := by
      unfold named?
      rw [hremember, Option.bind_some]
      simp only [readQuoted?_writeText ht hquoted, Option.map_some]
      rfl
    rw [← hnamed]
    unfold readToken?
    simp [seesTriple_of_rest hc]
  refine ⟨s', r.cursor, (hscans s' hread).mono ?_, ?_, hquoted, rfl, hplace⟩
  · simp [Json.writeText]
  · refine hr.found ?_ hlength hoptional (by simp) _
    rw [Cursor.rest_skips, hquoted, List.drop_left]

/-- **A text in quotes is read.** -/
theorem InFlow.quoted {t : Text} (h : s.InFlow depth keys (Json.writeText t ++ rest) tokens)
    (ht : Legible t) :
    ∃ s', Scans (Json.writeText t) s s' ∧
      s'.InFlow depth false rest (.scalar t false :: tokens) := by
  obtain ⟨s', -, hscans, hs', -⟩ := h.exists_quoted ht
  exact ⟨s', hscans, hs'⟩

theorem placeHolds?_of_holdsAt {p : KeyPlace} (h : p.holdsAt s.cursor = true) :
    s.placeHolds? p = some true := by
  have hfresh : ¬(p.line < s.cursor.line ∨ p.index + 1024 < s.cursor.index) := by
    simpa [KeyPlace.holdsAt] using h
  rw [placeHolds?, if_neg hfresh]

/-- What was read last turns out to be a key at the colon: its token is put in front. -/
theorem InFlow.exists_colon {p : KeyPlace} {places : List (Option KeyPlace)} {t : Token}
    (h : s.InFlow (depth + 1) keys (':' :: rest) (t :: tokens)) (hc : s.cursor.rest = ':' :: rest)
    (hplaces : s.places = some p :: places) (hnumber : p.tokenNumber = tokens.length)
    (hholds : p.holdsAt s.cursor = true) :
    ∃ s', s.readToken? ':' = some s' ∧
      s'.InFlow (depth + 1) false rest (.value :: t :: .key :: tokens) := by
  let keyed : Scanner := { s with tokens := t :: .key :: tokens }
  have hkeyed : keyed.InFlow (depth + 1) keys (':' :: rest) (t :: .key :: tokens) :=
    { h with tokens := rfl }
  have hinsert : s.insertToken tokens.length .key = keyed := by
    simp [insertToken, h.tokens, keyed]
  have hopen : keyed.openBlock p.column (some tokens.length) .blockMappingStart = keyed := by
    unfold openBlock
    rw [if_pos (.inl hkeyed.inFlow)]
  have hread : s.readToken? ':' = s.value? := by
    unfold readToken?
    simp [seesTriple_of_rest hc, h.inFlow]
  have hlength : (none :: places).length = depth + 1 + 1 := by
    rw [← h.places, hplaces]
    rfl
  refine ⟨({ keyed with places := none :: places }).mark .value 1 false, ?_,
    hkeyed.mark hc hlength ?_ false⟩
  · rw [hread]
    unfold value?
    rw [hplaces]
    simp only [placeHolds?_of_holdsAt hholds, Option.bind_some, if_true, hnumber, hinsert, hopen]
  · intro q hq
    rcases List.mem_cons.mp hq with hq | hq
    · cases hq
    · exact h.optional q (by rw [hplaces]; exact List.mem_cons_of_mem _ hq)

/-- **A key is read** together with its colon. -/
theorem InFlow.key {k : Text}
    (h : s.InFlow (depth + 1) true (Json.writeText k ++ ':' :: rest) tokens) (hk : Legible k)
    (hshort : Text.byteLength (Json.writeText k) ≤ 1024) :
    ∃ s', Scans (Json.writeText k ++ [':']) s s' ∧
      s'.InFlow (depth + 1) false rest (.value :: .scalar k false :: .key :: tokens) := by
  obtain ⟨s₁, c, hscans, h₁, hc, hcursor, hplace⟩ := h.exists_quoted hk
  obtain ⟨places, hplaces⟩ := List.head?_eq_some_iff.mp (hplace rfl)
  have hrest : s₁.cursor.rest = ':' :: rest := by
    rw [hcursor, Cursor.rest_skips, hc, List.drop_left]
  have hholds : KeyPlace.holdsAt ⟨false, tokens.length, c.line, c.index, c.column⟩ s₁.cursor =
      true := by
    have hindex : (c.skips (Json.writeText k).length).index =
        c.index + Text.byteLength (Json.writeText k) := by
      show c.index + Text.byteLength (c.rest.take _) = _
      rw [hc, List.take_left]
    rw [hcursor]
    simp only [KeyPlace.holdsAt, Cursor.line_skips, hindex]
    simpa using hshort
  obtain ⟨c', -, hsame, hrun⟩ := h₁.exists_run? (by rintro _ ⟨⟩; rfl)
  obtain rfl := hsame hrest
  have hready : (s₁.readyAt s₁.cursor).places =
      some ⟨false, tokens.length, c.line, c.index, c.column⟩ ::
        places.map fun place => place.filter (·.holdsAt s₁.cursor) := by
    show s₁.places.map _ = _
    rw [hplaces, List.map_cons]
    simp only [Option.filter_some, hholds, if_true]
  obtain ⟨s', hread, hs'⟩ := (h₁.readyAt hrest).exists_colon hrest hready rfl hholds
  refine ⟨s', hscans.append ⟨1, Nat.le_refl _, fun fuel => ?_⟩, hs'⟩
  rw [Nat.add_comm, hrun]
  simp only [List.head?_cons, hread, Option.bind_some]

/-- At the beginning of a bare word a plain scalar is read. -/
theorem readToken?_of_bare {y : Char} {w more : Text} (hw : Bare (y :: w))
    (hc : s.cursor.rest = y :: (w ++ more)) : s.readToken? y = s.plainScalar? := by
  have hdocument := (hw.seesDocumentMark (c := s.cursor) hc).1
  simp only [Cursor.seesDocumentMark, Bool.or_eq_false_iff] at hdocument
  have hy : isBareChar y = true := hw.chars y (List.mem_cons_self ..)
  have hmarks := @not_mem_of_isBareChar y hy ['%', '[', ']', '\x7b', '\x7d', ',', '?', ':', '*',
    '&', '!', '|', '>', '\'', '"', '#', '@', '\x60'] (by decide)
  simp only [List.mem_cons, List.not_mem_nil, or_false, not_or] at hmarks
  obtain ⟨_, _, heq, hbegins⟩ := hw.begins
  cases heq
  unfold readToken? plainMayBegin
  rcases hbegins with halnum | ⟨rfl, z, w, rfl, hz⟩
  · have hdash : y ≠ '-' := by
      rintro rfl
      exact absurd halnum (by decide)
    simp [hdocument, hmarks, hdash, isSpaceTab_of_isBareChar hy]
  · have hzBare : isBareChar z = true := by simp [isBareChar, hz]
    have hahead : s.cursor.ahead 1 = some z := by
      unfold Cursor.ahead
      rw [hc]
      rfl
    simp [hdocument, hahead, isGapOrEnd, isGapAt, isSpaceTab_of_isBareChar hzBare,
      isBreak_of_isBareChar hzBare]

/-- **A bare word is read** up to what follows it. -/
theorem InFlow.bare {w gap more : Text} {x : Char}
    (h : s.InFlow (depth + 1) keys (w ++ (gap ++ x :: more)) tokens) (hw : Bare w)
    (hgap : IsGap gap) (hx : Follows x) :
    ∃ s', Scans w s s' ∧ s'.InFlow (depth + 1) false (x :: more) (.scalar w true :: tokens) := by
  obtain ⟨y, w', rfl, hy⟩ := hw.begins
  have hyBare : isBareChar y = true := hw.chars y (List.mem_cons_self ..)
  have hlead : isLead y = true := by
    have hmem := @not_mem_of_isBareChar y hyBare [' ', '\t', '#', '\ufeff', '%'] (by decide)
    simpa [isLead, isBreak_of_isBareChar hyBare, and_assoc] using hmem
  obtain ⟨r, hr, hc, hscans⟩ := h.exists_ready hlead
  obtain ⟨places, hremember, hlength, hoptional, -⟩ := hr.exists_rememberKey?
  obtain ⟨broken, c, hplain, hc'⟩ :=
    @exists_readPlain?_bare _ gap more x (r.indent + 1).toNat r.cursor hw hgap hx hc
  let s' : Scanner := { r with
    cursor := c, tokens := .scalar (y :: w') true :: r.tokens, keyAllowed := broken, places }
  have hin : ({ r with places } : Scanner).inFlow = true := by simp [Scanner.inFlow, hlength]
  have hscalar : r.plainScalar? = some s' := by
    unfold plainScalar?
    rw [hremember, Option.bind_some, hin]
    simp only [hplain, Option.map_some]
    rfl
  refine ⟨s', (hscans s' ?_).mono (by simp), ?_⟩
  · rw [← hscalar]
    exact readToken?_of_bare hw hc
  · exact hr.found hc' hlength hoptional (by simp) _

/-- **What a collection holds is read** between its marks. -/
theorem InFlow.encloses {x y : Char} {opening closing : Token} {inner gap : Text}
    {produced : List Token}
    (h : s.InFlow depth keys (x :: inner ++ gap ++ [y] ++ rest) tokens)
    (hx : (x, opening) ∈ [('[', Token.flowSequenceStart), ('\x7b', .flowMappingStart)])
    (hy : (y, closing) ∈ [(']', Token.flowSequenceEnd), ('\x7d', .flowMappingEnd)])
    (hinner : ∀ s₁ : Scanner,
      s₁.InFlow (depth + 1) true (inner ++ (gap ++ y :: rest)) (opening :: tokens) →
      ∃ s₂, Scans inner s₁ s₂ ∧
        s₂.InFlow (depth + 1) false (y :: rest) (produced.reverse ++ opening :: tokens)) :
    ∃ s', Scans (x :: inner ++ gap ++ [y]) s s' ∧
      s'.InFlow depth false rest ((opening :: produced ++ [closing]).reverse ++ tokens) := by
  have hsplit : x :: inner ++ gap ++ [y] ++ rest = x :: (inner ++ (gap ++ y :: rest)) := by simp
  rw [hsplit] at h
  obtain ⟨s₁, hscans₁, h₁⟩ := h.opens hx
  obtain ⟨s₂, hscans₂, h₂⟩ := hinner s₁ h₁
  obtain ⟨s₃, hscans₃, h₃⟩ := h₂.closes hy
  refine ⟨s₃, ((hscans₁.append hscans₂).append hscans₃).mono (by simp), ?_⟩
  simpa using h₃

/-! ### Whole texts -/

/-- The scanner in front of a text. -/
def start (t : Text) : Scanner := { cursor := Cursor.ofText t }

theorem inFlow_start (t : Text) : (start t).InFlow 0 true t [] where
  ahead := ⟨[], isGap_nil, fun _ => rfl, rfl⟩
  tokens := rfl
  places := rfl
  optional := by simp [start]
  outer := rfl
  indent := rfl
  keys := fun _ => rfl

/-- At the end of the text nothing is added. -/
theorem InFlow.exists_finish (h : s.InFlow 0 keys [] tokens) :
    ∃ s', s'.tokens = tokens ∧ ∀ fuel, run? (fuel + 1) s = some s' := by
  obtain ⟨c, hc, -, hrun⟩ := h.exists_run? (by simp)
  let r := s.readyAt c
  have hr : r.InFlow 0 keys [] tokens := h.readyAt hc
  obtain ⟨c', hfinish⟩ : ∃ c', r.finish? = ({ r with cursor := c' } : Scanner).forgetKey? := by
    unfold finish?
    by_cases hcolumn : r.cursor.column = 0
    · refine ⟨r.cursor, ?_⟩
      simp only [hcolumn, if_true, closeBlocks_of_outer hr.outer]
    · refine ⟨{ r.cursor with column := 0, line := r.cursor.line + 1 }, ?_⟩
      simp only [hcolumn, if_false]
      rw [closeBlocks_of_outer]
      exact hr.outer
  have hmoved : ({ r with cursor := c' } : Scanner).InFlow 0 keys c'.rest tokens :=
    { hr with ahead := ⟨[], isGap_nil, fun _ => rfl, rfl⟩ }
  obtain ⟨places, hforget, -⟩ := hmoved.exists_forgetKey?
  refine ⟨{ r with cursor := c', places }, hr.tokens, fun fuel => ?_⟩
  rw [hrun]
  exact hfinish.trans hforget

end Scanner

/-- **A text that is scanned to its end gives its tokens.** -/
theorem tokens?_of_scans {t : Text} {tokens : List Token} {s : Scanner}
    (hallowed : ∀ c ∈ t, isAllowed c = true) (hscans : Scanner.Scans t (.start t) s)
    (hs : ∃ s', s'.tokens = tokens ∧ ∀ fuel, Scanner.run? (fuel + 1) s = some s') :
    tokens? t = some tokens.reverse := by
  obtain ⟨n, hn, hrun⟩ := hscans
  obtain ⟨s', htokens, hfinish⟩ := hs
  have hfuel : t.length + 2 = n + (t.length - n + 1 + 1) := by omega
  unfold tokens?
  rw [if_pos (List.all_eq_true.mpr hallowed), hfuel]
  show (Scanner.run? _ (Scanner.start t)).map _ = _
  rw [hrun, hfinish, Option.map_some, htokens]

end NotePress.Yaml
