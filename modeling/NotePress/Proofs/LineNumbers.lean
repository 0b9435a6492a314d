import Mathlib.Algebra.BigOperators.Group.Finset.Basic
import NotePress.Proofs.AttributeBlocks
import NotePress.Proofs.Occurrences
import NotePress.Proofs.Passes
import NotePress.Proofs.Trimming

/-!
# Numbers of lines

Replacements change the number of a line behind them, by as many line feeds as they have more or
less than what they replace (`Text.addedBefore`). This is so for what a splice leaves alone
(`Text.lineAt_landing`), and for a part of the text that a pass spares (`Lowering.lineAt_carry`): if
a listing takes its fence over, what begins the listing is on one line, as the fence's first line is
(`Lowering.not_mem_listingLead`). Over several passes the changes add up (`Lowering.lineAt_follow`).
-/

namespace NotePress

namespace Text

/-- The number of the line that a position is on; lines end at line feeds. -/
def lineAt (t : Text) (p : Nat) : Nat := (t.take p).count '\n' + 1

/-- By how many lines a replacement is longer than the part that it replaces. -/
def addedLines (t : Text) (part : Span × Text) : Int :=
  part.2.count '\n' - (t.slice part.1.start part.1.stop).count '\n'

/-- How many lines the replacements in front of a position add. -/
def addedBefore (t : Text) (parts : List (Span × Text)) (p : Nat) : Int :=
  ((parts.filter (·.1.stop ≤ p)).map t.addedLines).sum

/-! ### Lines of a text -/

/-- The number of a line further on in a piece of the text. -/
theorem HasAt.lineAt_add {t piece : Text} {p : Nat} (h : t.HasAt p piece) {j : Nat}
    (hj : j ≤ piece.length) : t.lineAt (p + j) = t.lineAt p + (piece.take j).count '\n' := by
  obtain ⟨back, hback⟩ := h
  unfold lineAt
  rw [List.take_add, List.count_append, ← hback, List.take_append_of_le_length hj]
  omega

theorem count_spliceFrom {t : Text} {parts : List (Span × Text)} (hfits : t.Fits (parts.map (·.1)))
    {pos : Nat} (hpos : ∀ part ∈ parts, pos ≤ part.1.start) :
    ((spliceFrom t pos parts).count '\n' : Int) =
      (t.drop pos).count '\n' + (parts.map t.addedLines).sum := by
  induction parts generalizing pos with
  | nil => simp [spliceFrom]
  | cons part rest ih =>
    obtain ⟨horder, hall⟩ := hfits
    rw [List.map_cons, List.pairwise_cons] at horder
    have hlt := (hall part.1 (List.mem_cons_self ..)).1
    have hrest := ih ⟨horder.2, fun s hs => hall s (List.mem_cons_of_mem _ hs)⟩
      fun other hother => horder.1 _ (List.mem_map_of_mem hother)
    have hsplit : (t.drop pos).count '\n' = (t.slice pos part.1.start).count '\n' +
        (t.slice part.1.start part.1.stop).count '\n' + (t.drop part.1.stop).count '\n' := by
      rw [← slice_append_drop t (hpos part (List.mem_cons_self ..)),
        ← slice_append_drop t (Nat.le_of_lt hlt), List.count_append, List.count_append]
      omega
    rw [spliceFrom, List.count_append, List.count_append, List.map_cons, List.sum_cons, addedLines,
      hsplit]
    push_cast
    rw [hrest]
    omega

/-- Of replacements that fit, others are in front of one or behind it. -/
theorem eq_or_apart_of_fits {t : Text} {parts : List (Span × Text)}
    (hfits : t.Fits (parts.map (·.1))) {part other : Span × Text} (hpart : part ∈ parts)
    (hother : other ∈ parts) : other.1 = part.1 ∨ other.1.Apart part.1 := by
  by_cases heq : other.1 = part.1
  · exact .inl heq
  · exact .inr (@Span.apart_of_pairwise _ id _ hfits.1 _ _ (List.mem_map_of_mem hother)
      (List.mem_map_of_mem hpart) heq)

/-- In front of all positions inside of a replaced part the same is added. -/
theorem addedBefore_within {t : Text} {parts : List (Span × Text)}
    (hfits : t.Fits (parts.map (·.1))) {part : Span × Text} (hpart : part ∈ parts) {p : Nat}
    (hstart : part.1.start ≤ p) (hstop : p < part.1.stop) :
    t.addedBefore parts p = t.addedBefore parts part.1.start := by
  unfold addedBefore
  congr 2
  refine List.filter_congr fun other hother => decide_eq_decide.mpr ?_
  have hlt := (hfits.2 other.1 (List.mem_map_of_mem hother)).1
  rcases eq_or_apart_of_fits hfits hpart hother with heq | h | h
  · rw [heq]
    omega
  · omega
  · omega

/-- **What no replacement touches** is as many lines further on as those in front of it add. -/
theorem lineAt_landing {t : Text} {parts : List (Span × Text)} (hfits : t.Fits (parts.map (·.1)))
    {p : Nat} (hp : ∀ part ∈ parts, part.1.stop ≤ p ∨ p ≤ part.1.start) :
    ((t.splice parts).lineAt (t.landing parts p) : Int) = t.lineAt p + t.addedBefore parts p := by
  have hfront : (t.splice parts).take (t.landing parts p) =
      splice (t.take p) (parts.filter (·.1.stop ≤ p)) := by
    unfold splice landing
    rw [spliceFrom_eq_append hfits (Nat.zero_le p) hp]
    exact List.take_left
  have hadded : (parts.filter (·.1.stop ≤ p)).map (addedLines (t.take p)) =
      (parts.filter (·.1.stop ≤ p)).map t.addedLines := by
    refine List.map_congr_left fun part hpart => ?_
    have hstop : part.1.stop ≤ p := by simpa using (List.mem_filter.mp hpart).2
    rw [addedLines, addedLines, slice_take t hstop]
  unfold lineAt addedBefore
  rw [hfront, splice]
  push_cast
  rw [count_spliceFrom (hfits.take p) fun _ _ => Nat.zero_le _, hadded, List.drop_zero]
  omega

end Text

/-! ### What begins a listing -/

/-- There is no line break between the start of a fence and what is inside of it. -/
theorem Fence.lineAt_inside (f : Fence) (t : Text) :
    t.lineAt (f.inside t).start = t.lineAt f.span.start := by
  show t.lineAt (f.span.start + (t.drop f.span.start).idxOf '\n') = _
  rw [(show t.HasAt f.span.start (t.drop f.span.start) from List.prefix_rfl).lineAt_add
    List.idxOf_le_length, List.count_eq_zero_of_not_mem, Nat.add_zero]
  intro hmem
  exact Nat.lt_irrefl _ ((List.mem_take_iff_idxOf_lt (List.mem_of_mem_take hmem)).mp hmem)

/-- A fence has its quote prefix and its info string from the line that opens it. -/
theorem Fence.exists_opening {t : Text} {f : Fence} (h : f ∈ t.fences) :
    ∃ line ∈ t.lines, ∃ opening, FenceLine.read? line.content = some opening ∧
      f.quote = opening.quote ∧ f.info = opening.info := by
  have hall : ∀ {skip : Nat} {lines : List Line}, f ∈ fencesFrom t skip lines →
      ∃ line ∈ lines, ∃ opening, FenceLine.read? line.content = some opening ∧
        f.quote = opening.quote ∧ f.info = opening.info := by
    intro skip lines h
    induction lines generalizing skip with
    | nil => cases skip <;> cases h
    | cons line rest ih =>
      have hrest : ∀ {skip : Nat}, f ∈ fencesFrom t skip rest → ∃ other ∈ line :: rest,
          ∃ opening, FenceLine.read? other.content = some opening ∧
            f.quote = opening.quote ∧ f.info = opening.info := by
        intro skip h
        obtain ⟨other, hother, hopening⟩ := ih h
        exact ⟨other, List.mem_cons_of_mem _ hother, hopening⟩
      cases skip with
      | succ skip => exact hrest h
      | zero =>
        rw [fencesFrom] at h
        split at h
        · exact hrest h
        · rename_i opening hopening
          split at h
          · exact hrest h
          · rcases List.mem_cons.mp h with rfl | h
            · exact ⟨line, List.mem_cons_self .., opening,
                (Option.filter_eq_some_iff.mp hopening).1, rfl, rfl⟩
            · exact hrest h
  exact hall h

/-- The quote prefix has blanks and quote marks only, and the info string is part of the line. -/
theorem FenceLine.parts_of_read? {line : Text} {opening : FenceLine}
    (h : FenceLine.read? line = some opening) :
    opening.quote <+: line ∧ (∀ c ∈ opening.quote, isQuoteChar c = true) ∧ opening.info ⊆ line := by
  unfold FenceLine.read? at h
  simp only at h
  split at h
  · cases h
  · split at h
    · cases h
      refine ⟨List.takeWhile_prefix _, fun c hc => List.mem_takeWhile_imp hc, fun c hc => ?_⟩
      exact (List.dropWhile_suffix _).subset
        ((List.dropWhile_suffix _).subset (Text.trim_subset _ hc))
    · cases h

theorem Fence.isQuoteChar_of_mem_quote {t : Text} {f : Fence} (h : f ∈ t.fences) :
    ∀ c ∈ f.quote, isQuoteChar c = true := by
  obtain ⟨line, -, opening, hread, hquote, -⟩ := Fence.exists_opening h
  rw [hquote]
  exact (FenceLine.parts_of_read? hread).2.1

/-- The quote prefix and the info string of a fence are on one line. -/
theorem Fence.no_break {t : Text} {f : Fence} (h : f ∈ t.fences) :
    '\n' ∉ f.quote ∧ '\n' ∉ f.info := by
  obtain ⟨line, hline, opening, hread, hquote, hinfo⟩ := Fence.exists_opening h
  obtain ⟨hfront, -, hpart⟩ := FenceLine.parts_of_read? hread
  have hbreak : '\n' ∉ line.content := (t.laid_lines.of_mem hline).2.1
  rw [hquote, hinfo]
  exact ⟨fun hc => hbreak (hfront.subset hc), fun hc => hbreak (hpart hc)⟩

theorem listingLanguage?_no_break {tag language : Text} (h : listingLanguage? tag = some language) :
    '\n' ∉ language := by
  obtain ⟨entry, hentry, rfl⟩ := Option.map_eq_some_iff.mp h
  have hall : ∀ entry ∈ listingLanguages, '\n' ∉ entry.2.toList := by decide
  exact hall entry (List.mem_of_find?_eq_some hentry)

theorem labelIn_no_break {label space : Text} (hlabel : '\n' ∉ label) (hspace : '\n' ∉ space) :
    '\n' ∉ labelIn label space := by
  intro hc
  rcases Attributes.mem_labelIn hc with hc | hc | hc
  · exact hspace hc
  · exact absurd hc (by decide)
  · exact hlabel hc

theorem bracedOption_no_break {key : String} {value : Text} (hkey : '\n' ∉ key.toList)
    (hvalue : '\n' ∉ value) : '\n' ∉ bracedOption key value := by
  simp [bracedOption, hkey, hvalue]

namespace Lowering

variable {l : Lowering} {c : Cache} {source : DocumentId} {t : Text} {b : Span}

/-- **What begins a listing is on one line.** -/
theorem not_mem_listingLead {quote : Text} {language label caption : Option Text}
    (hquote : '\n' ∉ quote) (hlanguage : ∀ x ∈ language, '\n' ∉ x) (hlabel : ∀ x ∈ label, '\n' ∉ x)
    (hcaption : ∀ x ∈ caption, '\n' ∉ x) : '\n' ∉ listingLead quote language label caption := by
  have hoptions : ∀ option ∈ listingOptions language label caption, '\n' ∉ option := by
    intro option hoption
    rcases List.mem_append.mp hoption with hoption | hoption
    · rcases List.mem_append.mp hoption with hoption | hoption
      · obtain ⟨x, hx, rfl⟩ := Option.map_eq_some_iff.mp (Option.mem_toList.mp hoption)
        split
        · exact bracedOption_no_break (by decide) (hlanguage x hx)
        · simp [hlanguage x hx]
      · obtain ⟨x, hx, rfl⟩ := Option.map_eq_some_iff.mp (Option.mem_toList.mp hoption)
        exact bracedOption_no_break (by decide) (labelIn_no_break (hlabel x hx) (by decide))
    · obtain ⟨x, hx, rfl⟩ := Option.map_eq_some_iff.mp (Option.mem_toList.mp hoption)
      exact bracedOption_no_break (by decide) (hcaption x hx)
  have hjoined := Text.not_mem_join [','] (by decide) hoptions
  have hbegin : '\n' ∉ listingBegin := by decide
  unfold listingLead
  split <;> simp [hquote, hbegin, hjoined]

theorem splitInfo_no_break {info tag : Text} {block : Option Text} (hinfo : '\n' ∉ info)
    (h : splitInfo info = (tag, block)) : ∀ x ∈ block, '\n' ∉ x := by
  unfold splitInfo at h
  split at h
  · rename_i hcut
    cases h
    intro x hx hbreak
    obtain ⟨⟨front, rest⟩, hlast, rfl⟩ := Option.map_eq_some_iff.mp hx
    refine hinfo ?_
    rw [Text.eq_of_cutAt? hcut, (Text.of_cutAtLast? hlast).1]
    simp [show '\n' ∈ front from hbreak]
  · cases h
    simp

/-- The language, label and caption of a fence are on one line. -/
theorem constructOfFence_no_break {f : Fence} {quote body : Text}
    {language label caption : Option Text} (hinfo : '\n' ∉ f.info)
    (h : l.constructOfFence f = some (.listing quote language label caption body)) :
    (∀ x ∈ language, '\n' ∉ x) ∧ (∀ x ∈ label, '\n' ∉ x) ∧ ∀ x ∈ caption, '\n' ∉ x := by
  unfold constructOfFence at h
  split at h
  · cases h
  · simp only at h
    split at h
    · cases h
    · cases h
      have hblock := splitInfo_no_break hinfo (Prod.mk.eta (p := splitInfo f.info)).symm
      have hattributes : (∀ x ∈ ((splitInfo f.info).2.map Attributes.parse).getD {} |>.label,
          '\n' ∉ x) ∧ ∀ x ∈ ((splitInfo f.info).2.map Attributes.parse).getD {} |>.caption,
            '\n' ∉ x := by
        cases hinside : (splitInfo f.info).2 with
        | none => simp
        | some inside => exact Attributes.parse_no_break (hblock inside hinside)
      refine ⟨fun x hx => ?_, hattributes⟩
      obtain ⟨tag, -, htag⟩ := Option.bind_eq_some_iff.mp hx
      exact listingLanguage?_no_break htag

/-- A fence becomes a listing with the fence's inside behind what begins it, on one line. -/
theorem exists_listing_lead (c : Cache) (source : DocumentId) {f : Fence} (hf : f ∈ t.fences)
    (h : (l.constructOfFence f).isSome) :
    ∃ lead back, (f.span, lead ++ '\n' :: f.body ++ back) ∈ l.parts c source t ∧
      lead.length = l.leadLength f ∧ '\n' ∉ lead := by
  obtain ⟨construct, hconstruct⟩ := Option.isSome_iff_exists.mp h
  obtain ⟨language, label, caption, rfl⟩ := constructOfFence_eq_some hconstruct
  have hasks : (l.fenceSite f).asks = none := by
    unfold fenceSite
    rw [hconstruct]
    rfl
  obtain ⟨hquote, hinfo⟩ := Fence.no_break hf
  obtain ⟨hlanguage, hlabel, hcaption⟩ := constructOfFence_no_break hinfo hconstruct
  obtain ⟨back, hback⟩ := listingOf_eq f.quote language label caption f.body
  refine ⟨listingLead f.quote language label caption, back, ?_, ?_,
    not_mem_listingLead hquote hlanguage hlabel hcaption⟩
  · rw [← hback]
    exact mem_parts (fenceSite_mem_sitesIn (l.seenThrough c) source hf) hconstruct hasks
  · unfold leadLength
    rw [hconstruct]

/-! ### Passes -/

/-- **A part of the text that a pass spares** is as many lines further on as what the pass puts in
in front of it adds. -/
theorem lineAt_carry (hends : l.PassEnds c source t) (hb : b.start < b.stop)
    (hspares : (l.seenThrough c).Spares t source b) :
    ((l.passText c source t).lineAt (l.carry c source t b) : Int) =
      t.lineAt b.start + t.addedBefore (l.parts c source t) b.start := by
  have hfits := fits_parts l c source t
  rw [passText_eq hends]
  rcases carry_cases hspares with ⟨hapart, hcarry⟩ | ⟨f, hf, hconstruct, hstart, hstop, hcarry⟩
  · rw [hcarry]
    refine Text.lineAt_landing hfits fun part hpart => ?_
    rcases hapart part hpart with h | h
    · exact .inl h
    · exact .inr (Nat.le_trans (Nat.le_of_lt hb) h)
  · obtain ⟨lead, back, hpart, hlength, hlead⟩ := exists_listing_lead c source hf hconstruct
    have hstands := Text.stands_of_mem_fences hf
    have hstartLt := hstands.start_lt
    have hstopLe := hstands.stop_le
    have hinsideStop : (f.inside t).stop = (f.inside t).start + ('\n' :: f.body).length := rfl
    have hspan : f.span.start ≤ f.span.stop := by omega
    have hfront : ∀ part ∈ l.parts c source t,
        part.1.stop ≤ f.span.start ∨ f.span.start ≤ part.1.start := by
      intro part hmem
      rcases Text.eq_or_apart_of_fits hfits hpart hmem with heq | h | h
      · exact .inr (Nat.le_of_eq (congrArg Span.start heq).symm)
      · exact .inl h
      · exact .inr (Nat.le_trans hspan h)
    have hadded : t.addedBefore (l.parts c source t) b.start =
        t.addedBefore (l.parts c source t) f.span.start :=
      Text.addedBefore_within hfits hpart (by dsimp only; omega) (by dsimp only; omega)
    have hopening := f.lineAt_inside t
    obtain ⟨d, hd⟩ := Nat.exists_eq_add_of_le hstart
    have hnote := hstands.inside.lineAt_add (j := d) (by omega)
    have hlisting := (Text.hasAt_splice_of_mem hfits hpart).lineAt_add
      (j := lead.length + d) (by simp only [List.length_append]; omega)
    have htake : (lead ++ '\n' :: f.body ++ back).take (lead.length + d) =
        lead ++ ('\n' :: f.body).take d := by
      rw [List.append_assoc, List.take_length_add_append, List.take_append_of_le_length (by omega)]
    rw [htake, List.count_append, List.count_eq_zero_of_not_mem hlead] at hlisting
    have hlanding := Text.lineAt_landing hfits hfront
    rw [hcarry, hadded, ← hlength, hd, Nat.add_sub_cancel_left, Nat.add_assoc, hlisting, hnote,
      hopening]
    push_cast
    omega

/-- **A part of the text that several passes spare** is as many lines further on as they all add. -/
theorem lineAt_follow {n p : Nat} {piece : Text} (hpiece : piece ≠ [])
    (hends : ∀ m < n, l.PassEnds c source (l.afterPasses c source t m))
    (hstays : l.Stays c source t ⟨p, p + piece.length⟩ n) :
    ((l.afterPasses c source t n).lineAt
        (l.follow c source t ⟨p, p + piece.length⟩ n).start : Int) =
      t.lineAt p + ∑ m ∈ Finset.range n, (l.afterPasses c source t m).addedBefore
        (l.parts c source (l.afterPasses c source t m))
          (l.follow c source t ⟨p, p + piece.length⟩ m).start := by
  induction n with
  | zero => simp [afterPasses, follow]
  | succ n ih =>
    have hlt : (l.follow c source t ⟨p, p + piece.length⟩ n).start <
        (l.follow c source t ⟨p, p + piece.length⟩ n).stop := by
      have := List.length_pos_iff.mpr hpiece
      rw [follow_stop]
      omega
    rw [Finset.sum_range_succ, ← add_assoc, ← ih (fun m hm => hends m (Nat.lt_succ_of_lt hm))
      fun m hm => hstays m (Nat.lt_succ_of_lt hm), afterPasses_succ]
    exact lineAt_carry (hends n (Nat.lt_succ_self n)) hlt (hstays n (Nat.lt_succ_self n))

end Lowering

end NotePress
