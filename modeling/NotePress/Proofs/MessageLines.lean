import NotePress.Proofs.LineReports

/-!
# Messages, line by line

What is read in a compiler's messages is read in each line by itself. A report takes the rest of its
line, so a line has at most one: the one whose mark stands furthest in front (`Report.IsOf`). Only
then its number is looked at. A number that is too large, or that is written in digits of another
script, gives no diagnostic, and the other lines give what they give without that line.

The lines of the preamble are taken off at the end: what is left out for a preamble of `n` lines are
the reports of the first `n` lines, and all others are moved by `n`
(`Diagnostic.diagnostics_by_line`).
-/

namespace NotePress.Diagnostic

/-! ### One line -/

/-- A report stands in a line behind `front`, which does not end in a word, and takes the rest of
the line: its digits, a gap, and the message. -/
structure Report.StandsBehind (r : Report) (front line : Text) : Prop where
  no_word : ∀ c ∈ front.getLast?, isWordChar c = false
  digits_ne_nil : r.digits ≠ []
  digits : ∀ c ∈ r.digits, isDecimalDigit c = true
  message : ∀ c ∈ r.message.head?, isSpaceTab c = false
  marked : ∃ gap, gap ≠ [] ∧ (∀ c ∈ gap, isSpaceTab c = true) ∧
    line = front ++ 'l' :: '.' :: (r.digits ++ (gap ++ r.message))

/-- The report of a line is the one that stands furthest in front. -/
def Report.IsOf (r : Report) (line : Text) : Prop :=
  ∃ front, r.StandsBehind front line ∧
    ∀ (other : Report) (front' : Text), other.StandsBehind front' line →
      front.length ≤ front'.length

theorem isDecimalDigit_of_isSpaceTab {c : Char} (hc : isSpaceTab c = true) :
    isDecimalDigit c = false := by
  simp only [isSpaceTab, Bool.or_eq_true, decide_eq_true_eq] at hc
  rcases hc with rfl | rfl <;> decide

/-- **What is recognised in a line** are the reports that stand in it, each with the rest of it. -/
theorem recogniseReport_eq_some_iff {front rest : Text} {n : Nat} {r : Report}
    (hbreak : ∀ c ∈ rest, endsLine c = false) :
    recogniseReport front.getLast? rest = some (n, r) ↔
      r.StandsBehind front (front ++ rest) ∧ n = rest.length := by
  constructor
  · intro h
    unfold recogniseReport at h
    split at h
    · cases h
    rename_i hword
    split at h
    · rename_i behind
      simp only at h
      split at h
      · cases h
      rename_i hparts
      obtain ⟨hdigits, hgap⟩ := not_or.mp hparts
      cases h
      have hmessage : ((behind.dropWhile isDecimalDigit).dropWhile isSpaceTab).takeWhile
          (fun c => !endsLine c) = (behind.dropWhile isDecimalDigit).dropWhile isSpaceTab := by
        refine List.takeWhile_eq_self_iff.mpr fun c hc => ?_
        rw [hbreak c (by
          have := (List.dropWhile_suffix _).subset ((List.dropWhile_suffix _).subset hc)
          simp [this])]
        rfl
      have hsplit : behind = behind.takeWhile isDecimalDigit ++
          ((behind.dropWhile isDecimalDigit).takeWhile isSpaceTab ++
            (behind.dropWhile isDecimalDigit).dropWhile isSpaceTab) := by
        rw [List.takeWhile_append_dropWhile, List.takeWhile_append_dropWhile]
      refine ⟨⟨fun c hc => ?_, hdigits, fun c hc => List.mem_takeWhile_imp hc, fun c hc => ?_,
        _, hgap, fun c hc => List.mem_takeWhile_imp hc, ?_⟩, ?_⟩
      · rw [Option.mem_def.mp hc] at hword
        simpa using hword
      · have hnot := List.head?_dropWhile_not isSpaceTab (behind.dropWhile isDecimalDigit)
        rw [← hmessage, Option.mem_def.mp hc] at hnot
        exact hnot
      · rw [hmessage, ← hsplit]
      · rw [hmessage]
        have hlength := congrArg List.length hsplit
        simp only [List.length_append, List.length_cons] at hlength ⊢
        omega
    · cases h
  · rintro ⟨⟨hword, hne, hdigits, hmessage, gap, hgap, hblank, hline⟩, rfl⟩
    obtain rfl := List.append_cancel_left hline
    have hgapHead : ∀ c ∈ (gap ++ r.message).head?, isDecimalDigit c = false := by
      obtain ⟨g, gs, rfl⟩ := List.exists_cons_of_ne_nil hgap
      rintro _ ⟨⟩
      exact isDecimalDigit_of_isSpaceTab (hblank g (List.mem_cons_self ..))
    have htake : (r.digits ++ (gap ++ r.message)).takeWhile isDecimalDigit = r.digits :=
      (takeWhile_append_of_head hgapHead).trans (List.takeWhile_eq_self_iff.mpr hdigits)
    have hdrop : (r.digits ++ (gap ++ r.message)).dropWhile isDecimalDigit = gap ++ r.message := by
      rw [dropWhile_append_of_head hgapHead, List.dropWhile_eq_nil_iff.mpr hdigits,
        List.nil_append]
    have htakeGap : (gap ++ r.message).takeWhile isSpaceTab = gap :=
      (takeWhile_append_of_head hmessage).trans (List.takeWhile_eq_self_iff.mpr hblank)
    have hdropGap : (gap ++ r.message).dropWhile isSpaceTab = r.message := by
      rw [dropWhile_append_of_head hmessage, List.dropWhile_eq_nil_iff.mpr hblank,
        List.nil_append]
    have hrest : r.message.takeWhile (fun c => !endsLine c) = r.message :=
      List.takeWhile_eq_self_iff.mpr fun c hc => by
        rw [hbreak c (by simp [hc])]
        rfl
    have hany : front.getLast?.any isWordChar = false := by
      cases hlast : front.getLast? with
      | none => rfl
      | some c => exact hword c hlast
    unfold recogniseReport
    rw [if_neg (by simp [hany])]
    simp only [htake, hdrop, htakeGap, hdropGap, hrest]
    rw [if_neg (by simp [hne, hgap])]
    simp only [List.length_cons, List.length_append]
    congr 2
    omega

/-- A walk passes over places where nothing is found. -/
theorem scan_append_of_none {α : Type} {recognise : Recogniser α} {front rest : Text}
    (hnone : ∀ a b, a ++ b = front → b ≠ [] → recognise a.getLast? (b ++ rest) = none) :
    Text.scan recognise (front ++ rest) =
      Text.scanFrom recognise front.getLast? 0 front.length rest := by
  induction front using List.reverseRecOn generalizing rest with
  | nil => rfl
  | append_singleton front c ih =>
    have hhere : recognise front.getLast? (c :: rest) = none := hnone front [c] rfl (by simp)
    rw [List.append_assoc, List.singleton_append, ih fun a b hab hb => ?_, Text.scanFrom, hhere]
    · simp
    · rw [← List.singleton_append, ← List.append_assoc]
      exact hnone a (b ++ [c]) (by rw [← List.append_assoc, hab]) (by simp)

/-- A line with a report has a first one. -/
theorem Report.StandsBehind.exists_isOf {r : Report} {front line : Text}
    (h : r.StandsBehind front line) : ∃ first : Report, first.IsOf line := by
  obtain ⟨front, ⟨first, hfirst⟩, hleast⟩ := (measure List.length).wf.has_min
    {front : Text | ∃ r : Report, r.StandsBehind front line} ⟨front, r, h⟩
  exact ⟨first, front, hfirst, fun other front' hother =>
    Nat.le_of_not_lt (hleast front' ⟨other, hother⟩)⟩

variable {line : Text} {headerLines : Nat}

/-- **A line gives what its report gives**, and nothing else. -/
theorem parse_of_isOf (hbreak : ∀ c ∈ line, endsLine c = false) {r : Report} (h : r.IsOf line) :
    parse line headerLines = (ofReport headerLines r).toList := by
  obtain ⟨front, hstands, hleast⟩ := h
  obtain ⟨gap, -, -, hline⟩ := hstands.marked
  generalize hrest : '.' :: (r.digits ++ (gap ++ r.message)) = rest at hline
  subst hline
  have hinner : ∀ {a b : Text}, a ++ b = front ++ 'l' :: rest → ∀ c ∈ b, endsLine c = false :=
    fun hab c hc => hbreak c (hab ▸ List.mem_append_right _ hc)
  have hfound : recogniseReport front.getLast? ('l' :: rest) = some (rest.length + 1, r) :=
    (recogniseReport_eq_some_iff (hinner rfl)).mpr ⟨hstands, rfl⟩
  have hscan : Text.scan recogniseReport (front ++ 'l' :: rest) =
      [⟨⟨front.length, front.length + (rest.length + 1)⟩, r⟩] := by
    rw [scan_append_of_none fun a b hab hb => ?_, Text.scanFrom, hfound]
    · obtain ⟨_, hbehind⟩ := exists_scanFrom_append recogniseReport (some 'l')
        (front.length + 1) rest []
      rw [List.append_nil] at hbehind
      simp only [Nat.add_sub_cancel, hbehind]
      rfl
    · -- What is found further in front would be a report that comes first.
      have hsplit : a ++ (b ++ 'l' :: rest) = front ++ 'l' :: rest := by
        rw [← List.append_assoc, hab]
      cases hearlier : recogniseReport a.getLast? (b ++ 'l' :: rest) with
      | none => rfl
      | some found =>
        have hother := ((recogniseReport_eq_some_iff (hinner hsplit)).mp hearlier).1
        rw [hsplit] at hother
        have hlength := hleast _ _ hother
        have hb := List.length_pos_iff.mpr hb
        rw [← hab, List.length_append] at hlength
        omega
  unfold parse
  rw [hscan, List.filterMap_cons, List.filterMap_nil]
  cases ofReport headerLines r <;> rfl

/-- A line without a report gives nothing. -/
theorem parse_of_no_report (hbreak : ∀ c ∈ line, endsLine c = false)
    (h : ∀ r : Report, ¬r.IsOf line) : parse line headerLines = [] := by
  have hscan : Text.scan recogniseReport (line ++ []) =
      Text.scanFrom recogniseReport line.getLast? 0 line.length [] :=
    scan_append_of_none fun a b hab _ => by
      cases hfound : recogniseReport a.getLast? (b ++ []) with
      | none => rfl
      | some found =>
        rw [List.append_nil] at hfound
        obtain ⟨first, hfirst⟩ := ((recogniseReport_eq_some_iff fun c hc =>
          hbreak c (hab ▸ List.mem_append_right _ hc)).mp hfound).1.exists_isOf
        exact absurd (hab ▸ hfirst) (h first)
  unfold parse
  rw [← List.append_nil line, hscan]
  rfl

theorem ofReport_eq_some_iff {r : Report} {d : Diagnostic} : ofReport headerLines r = some d ↔
    ∃ n, readNat? r.digits = some n ∧ headerLines < n ∧ n < 2 ^ 64 ∧
      d = ⟨n - headerLines, r.message.trimEnd⟩ := by
  rw [show 2 ^ 64 = lineBound from rfl]
  unfold ofReport readNatBelow?
  generalize lineBound = bound
  cases readNat? r.digits with
  | none => simp
  | some n =>
    rw [Option.filter_some]
    by_cases hbound : n < bound
    · by_cases hheader : headerLines < n <;> simp [hbound, hheader, eq_comm]
    · simp [hbound]

/-- **What a line gives.** -/
theorem mem_parse_line_iff (hbreak : ∀ c ∈ line, endsLine c = false) {d : Diagnostic} :
    d ∈ parse line headerLines ↔ ∃ (r : Report) (n : Nat), r.IsOf line ∧
      readNat? r.digits = some n ∧ headerLines < n ∧ n < 2 ^ 64 ∧
        d = ⟨n - headerLines, r.message.trimEnd⟩ := by
  constructor
  · intro hd
    by_cases hreport : ∃ r : Report, r.IsOf line
    · obtain ⟨r, hr⟩ := hreport
      rw [parse_of_isOf hbreak hr, Option.mem_toList] at hd
      obtain ⟨n, hn⟩ := ofReport_eq_some_iff.mp hd
      exact ⟨r, n, hr, hn⟩
    · rw [parse_of_no_report hbreak (not_exists.mp hreport)] at hd
      cases hd
  · rintro ⟨r, n, hr, hn⟩
    rw [parse_of_isOf hbreak hr, Option.mem_toList]
    exact ofReport_eq_some_iff.mpr ⟨n, hn⟩

theorem length_parse_line_le_one (hbreak : ∀ c ∈ line, endsLine c = false) :
    (parse line headerLines).length ≤ 1 := by
  by_cases hreport : ∃ r : Report, r.IsOf line
  · obtain ⟨r, hr⟩ := hreport
    rw [parse_of_isOf hbreak hr]
    exact Option.length_toList_le
  · rw [parse_of_no_report hbreak (not_exists.mp hreport)]
    exact Nat.zero_le _

/-! ### All lines -/

/-- The lines of a stream of messages: what stands between line feeds and carriage returns. -/
def messageLines (t : Text) : List Text := t.splitOnP endsLine

/-- To show something of every stream, show it of single lines, and of two streams with the end of
a line between them. -/
theorem messages_induct {motive : Text → Prop}
    (single : ∀ line : Text, (∀ c ∈ line, endsLine c = false) → motive line)
    (join : ∀ a c b, endsLine c = true → motive a → motive b → motive (a ++ c :: b)) (t : Text) :
    motive t := by
  induction h : t.length using Nat.strongRecOn generalizing t with
  | _ n ih =>
    by_cases hbreak : ∀ c ∈ t, endsLine c = false
    · exact single t hbreak
    · push Not at hbreak
      obtain ⟨c, hmem, hc⟩ := hbreak
      obtain ⟨a, b, rfl⟩ := List.append_of_mem hmem
      rw [List.length_append, List.length_cons] at h
      exact join a c b (by simpa using hc) (ih _ (by omega) a rfl) (ih _ (by omega) b rfl)

theorem messageLines_break {c : Char} (hc : endsLine c = true) (a b : Text) :
    messageLines (a ++ c :: b) = messageLines a ++ messageLines b :=
  List.splitOnP_append_cons a b hc

theorem messageLines_single (hbreak : ∀ c ∈ line, endsLine c = false) :
    messageLines line = [line] :=
  List.splitOnP_eq_singleton hbreak

/-- No line has the end of a line in it. -/
theorem endsLine_of_mem_messageLines {t : Text} (h : line ∈ messageLines t) :
    ∀ c ∈ line, endsLine c = false := by
  induction t using messages_induct with
  | single t hbreak =>
    rw [messageLines_single hbreak, List.mem_singleton] at h
    exact h ▸ hbreak
  | join a c b hc iha ihb =>
    rw [messageLines_break hc, List.mem_append] at h
    exact h.elim iha ihb

/-- **A stream gives what its lines give**, in their order. -/
theorem parse_eq_flatMap (t : Text) (headerLines : Nat) :
    parse t headerLines = (messageLines t).flatMap (parse · headerLines) := by
  induction t using messages_induct with
  | single t hbreak => rw [messageLines_single hbreak, List.flatMap_singleton]
  | join a c b hc iha ihb =>
    rw [parse_break hc, messageLines_break hc, List.flatMap_append, iha, ihb]

/-! ### The preamble -/

theorem ofReport_eq (headerLines : Nat) (r : Report) : ofReport headerLines r =
    ((ofReport 0 r).filter (headerLines < ·.line)).map fun d =>
      ⟨d.line - headerLines, d.message⟩ := by
  unfold ofReport
  cases readNatBelow? lineBound r.digits with
  | none => rfl
  | some n =>
    simp only
    by_cases hheader : headerLines < n
    · simp [hheader, Nat.zero_lt_of_lt hheader]
    · by_cases hn : 0 < n <;> simp [hheader, hn, Nat.le_of_not_lt hheader]

/-- **The preamble is taken off at the end.** -/
theorem parse_header (t : Text) (headerLines : Nat) : parse t headerLines =
    ((parse t 0).filter (headerLines < ·.line)).map fun d =>
      ⟨d.line - headerLines, d.message⟩ := by
  unfold parse
  rw [List.filter_filterMap, List.map_filterMap]
  simp only [ofReport_eq headerLines]

/-- **Diagnostics, line by line.** For every number of lines of the preamble:

* what is read in two streams of messages with a line feed between them is read in the one and then
  in the other, and so what is read in a stream is read in its lines;
* a line gives one diagnostic or none, which is that of the report that stands furthest in front in
  it, if its number is below the bound and behind the preamble;
* all of it is read as for no preamble, less what falls into the first lines, and with their number
  taken off; so a line is at least one, and with that number put back it is what was reported;
* a number that is not below the bound is left out with its line, and the rest is as without it. -/
theorem diagnostics_by_line (headerLines : Nat) :
    (∀ a b, parse (a ++ '\n' :: b) headerLines = parse a headerLines ++ parse b headerLines) ∧
    (∀ t, parse t headerLines = (messageLines t).flatMap (parse · headerLines)) ∧
    (∀ t, ∀ line ∈ messageLines t, (parse line headerLines).length ≤ 1 ∧
      ∀ d, d ∈ parse line headerLines ↔ ∃ (r : Report) (n : Nat), r.IsOf line ∧
        readNat? r.digits = some n ∧ headerLines < n ∧ n < 2 ^ 64 ∧
          d = ⟨n - headerLines, r.message.trimEnd⟩) ∧
    (∀ t, parse t headerLines = ((parse t 0).filter (headerLines < ·.line)).map fun d =>
      ⟨d.line - headerLines, d.message⟩) ∧
    (∀ t, ∀ d ∈ parse t headerLines,
      1 ≤ d.line ∧ ⟨d.line + headerLines, d.message⟩ ∈ parse t 0) ∧
    (∀ t before line after (r : Report) n, messageLines t = before ++ line :: after →
      r.IsOf line → readNat? r.digits = some n → 2 ^ 64 ≤ n →
        parse t headerLines = (before ++ after).flatMap (parse · headerLines)) := by
  refine ⟨fun a b => parse_break (by decide) a b headerLines, fun t => parse_eq_flatMap t _,
    fun t line hline => ?_, fun t => parse_header t headerLines, fun t d hd => ?_,
    fun t before line after r n hlines hr hread hbound => ?_⟩
  · have hbreak := endsLine_of_mem_messageLines hline
    exact ⟨length_parse_line_le_one hbreak, fun d => mem_parse_line_iff hbreak⟩
  · rw [parse_header, List.mem_map] at hd
    obtain ⟨reported, hreported, rfl⟩ := hd
    obtain ⟨hmem, hbehind⟩ := List.mem_filter.mp hreported
    have hbehind := of_decide_eq_true hbehind
    refine ⟨Nat.sub_pos_of_lt hbehind, ?_⟩
    simpa only [Nat.sub_add_cancel hbehind.le] using hmem
  · have hbreak : ∀ c ∈ line, endsLine c = false :=
      endsLine_of_mem_messageLines (t := t) (by simp [hlines])
    have hnone : ofReport headerLines r = none := by
      rw [Option.eq_none_iff_forall_ne_some]
      intro d hd
      obtain ⟨m, hm, -, hbelow, -⟩ := ofReport_eq_some_iff.mp hd
      obtain rfl := Option.some.inj (hread.symm.trans hm)
      exact absurd hbelow (Nat.not_lt_of_le hbound)
    have hline : parse line headerLines = [] := by
      rw [parse_of_isOf hbreak hr, hnone]
      rfl
    rw [parse_eq_flatMap, hlines]
    simp [hline]

example :
    parse "see html.5 l.7 \\x l.9 y\rl.18446744073709551616 z\nl.4 w".toList 4 =
      [⟨3, "\\x l.9 y".toList⟩] := by decide +kernel

end NotePress.Diagnostic
