import NotePress.Proofs.CopiedLines
import NotePress.Proofs.Sections

/-!
# The fences of a section

A section that is cut out of a text has the fences that it had there, and what stands in it is
shielded as it was (`section_fences`). The cut takes whole fences, since none goes over a heading,
and the blank lines that are dropped at its ends belong to no fence; the lines that are kept are put
together with line feeds, and so are copied up to carriage returns.
-/

namespace NotePress

/-! ### Embeds line by line -/

/-- The embeds of a line, where they stand in the text. -/
def Line.embeds (l : Line) : List (Hit Embed) :=
  (l.content.scan recogniseEmbed).map (Hit.shift l.start)

variable {t s wanted : Text} {l m : Line} {lines kept ls ms : List Line} {sec : Section}
  {fs gs : List Fence} {e : Hit Embed}

theorem Line.embeds_bounds (he : e ∈ l.embeds) :
    l.start ≤ e.span.start ∧ e.span.start < e.span.stop ∧ e.span.stop ≤ l.stop := by
  obtain ⟨hit, hmem, rfl⟩ := List.mem_map.mp he
  obtain ⟨hlt, hle, -⟩ := marked_recogniseEmbed.of_mem_scan hmem
  simp only [Hit.shift, Span.shift, stop]
  omega

/-- There is no embed on a blank line. -/
theorem Line.embeds_of_blank (h : l.content.allBlank = true) : l.embeds = [] := by
  refine List.eq_nil_iff_forall_not_mem.mpr fun e he => ?_
  obtain ⟨hit, hmem, rfl⟩ := List.mem_map.mp he
  obtain ⟨hstands, -, -, -⟩ := hasAt_of_mem_scan_embed hmem
  have hbang : '!' ∈ l.content :=
    List.mem_of_mem_drop (hstands.subset (by simp [Embed.text, brackets]))
  exact absurd (List.all_eq_true.mp h '!' hbang) (by decide)

/-- A carriage return behind an embed is not read. -/
theorem readBrackets?_concat (u : Text) :
    readBrackets? (u ++ ['\r']) = (readBrackets? u).map fun p => (p.1, p.2 ++ ['\r']) := by
  refine Option.ext fun ⟨inner, after⟩ => ?_
  rw [Option.map_eq_some_iff, readBrackets?_eq_some_iff]
  constructor
  · rintro ⟨hsplit, hinner⟩
    rcases List.eq_nil_or_concat' after with rfl | ⟨after, c, rfl⟩
    · have hbrackets : brackets inner ++ [] = '!' :: '[' :: '[' :: (inner ++ [']']) ++ [']'] := by
        simp [brackets]
      rw [hbrackets] at hsplit
      cases (List.append_inj' hsplit rfl).2
    · rw [← List.append_assoc] at hsplit
      obtain ⟨hu, hc⟩ := List.append_inj' hsplit rfl
      exact ⟨(inner, after), readBrackets?_eq_some_iff.mpr ⟨hu, hinner⟩, by rw [hc]⟩
  · rintro ⟨⟨inner', after'⟩, hread, heq⟩
    cases heq
    obtain ⟨rfl, hinner⟩ := readBrackets?_eq_some_iff.mp hread
    exact ⟨List.append_assoc .., hinner⟩

theorem recogniseEmbed_concat (before : Option Char) (u : Text) :
    recogniseEmbed before (u ++ ['\r']) = recogniseEmbed before u := by
  have hquote : quoteAt before (u ++ ['\r']) = quoteAt before u := by
    unfold quoteAt
    rw [takeWhile_append_of_head (by rintro _ ⟨⟩; decide)]
  have hfront := congrArg List.length (quoteAt_append_drop before u)
  rw [List.length_append] at hfront
  unfold recogniseEmbed
  simp only [hquote]
  rw [List.drop_append_of_le_length (by omega), readBrackets?_concat, Option.map_map]
  congr 1
  funext p
  simp only [Function.comp, List.length_append, Nat.add_sub_add_right]

/-- A carriage return at the end of a text does not matter to its embeds. -/
theorem scan_concat (u : Text) :
    (u ++ ['\r']).scan recogniseEmbed = u.scan recogniseEmbed := by
  have hscan : ∀ before skip pos, Text.scanFrom recogniseEmbed before skip pos (u ++ ['\r']) =
      Text.scanFrom recogniseEmbed before skip pos u := by
    induction u with
    | nil =>
      intro before skip pos
      have hnone : recogniseEmbed before ['\r'] = none :=
        (recogniseEmbed_concat before []).trans (lineLocal_recogniseEmbed.nil before)
      cases skip <;> simp [Text.scanFrom, hnone]
    | cons c cs ih =>
      intro before skip pos
      have hsame := recogniseEmbed_concat before (c :: cs)
      rw [List.cons_append] at hsame ⊢
      cases skip with
      | succ skip => exact ih ..
      | zero =>
        rw [Text.scanFrom, Text.scanFrom, hsame]
        cases recogniseEmbed before (c :: cs) <;> simp only [ih]
  exact hscan none 0 0

/-- A copy of a line has its embeds. -/
theorem Line.Copies.scan_eq (h : l.Copies m) :
    m.content.scan recogniseEmbed = l.content.scan recogniseEmbed := by
  rcases h with h | h
  · rw [h]
  · rw [h, scan_concat]

/-- The embeds behind a position are those of the lines from there on. -/
theorem Text.LinedFrom.embeds_eq {pos : Nat} (h : t.LinedFrom pos lines) :
    (Text.embeds (t.drop pos)).map (Hit.shift pos) = lines.flatMap Line.embeds := by
  induction h with
  | done h =>
    rw [h]
    rfl
  | last h =>
    rw [h, List.flatMap_singleton]
    rfl
  | @line pos content brk lines h hfree hbreak _ ih =>
    obtain ⟨u, hu, hscan, hlength⟩ : ∃ u : Text, t.drop pos =
        u ++ '\n' :: t.drop (pos + content.length + brk.length) ∧
          u.scan recogniseEmbed = content.scan recogniseEmbed ∧
            u.length + 1 = content.length + brk.length := by
      cases hbreak with
      | lineFeed => exact ⟨content, h, rfl, rfl⟩
      | carriageReturn =>
        exact ⟨content ++ ['\r'], by rw [h]; simp, scan_concat content, by simp⟩
    rw [List.flatMap_cons, ← ih, hu, Text.embeds, lineLocal_recogniseEmbed.scan_join, hscan,
      hlength, List.map_append, List.map_map]
    congr 2
    funext e
    simp only [Function.comp, Hit.shift, Span.shift]
    congr 2 <;> omega

/-- **The embeds of a text are those of its lines.** -/
theorem Text.embeds_eq (t : Text) : t.embeds = t.lines.flatMap Line.embeds :=
  (List.map_id _).symm.trans t.linedFrom_lines.embeds_eq

/-! ### What is shielded -/

/-- All of a line is in a fence, or nothing of it. -/
theorem isFenced_line (hl : l ∈ t.lines) {k : Nat} (hk : k < l.content.length) :
    isFenced t.fences (l.start + k) = isFenced t.fences l.start := by
  have hstop : l.stop = l.start + l.content.length := rfl
  rw [Bool.eq_iff_iff, isFenced, isFenced, List.any_eq_true, List.any_eq_true]
  refine exists_congr fun f => and_congr_right fun hf => ?_
  obtain ⟨before, opening, inner, closing, after, hlines, -, hmade⟩ :=
    exists_madeOf_of_mem_fencesFrom hf
  have hlt := (Text.stands_of_mem_fences hf).lt
  rw [hmade.span] at hlt ⊢
  have hpairs := hlines ▸ t.laid_lines.pairwise
  obtain ⟨-, hpairs', hbefore⟩ := List.pairwise_append.mp hpairs
  obtain ⟨hbehind, hpairs''⟩ := List.pairwise_cons.mp hpairs'
  obtain ⟨-, hclosing, hinner⟩ := List.pairwise_append.mp hpairs''
  have hapart := hbehind closing (by simp)
  have := opening.start_le_stop
  have := closing.start_le_stop
  simp only [Span.contains, Bool.and_eq_true, decide_eq_true_eq] at hlt ⊢
  rw [hlines, List.mem_append, List.mem_cons, List.mem_append, List.mem_cons] at hl
  rcases hl with hl | rfl | hl | rfl | hl
  · have := hbefore l hl opening (List.mem_cons_self ..)
    omega
  · omega
  · have := hbehind l (by simp [hl])
    have := hinner l hl closing (List.mem_cons_self ..)
    omega
  · omega
  · have := (List.pairwise_cons.mp hclosing).1 l hl
    omega

/-- A line and a copy of it that are shielded alike, in all their characters. -/
structure ShieldedAlike (fs gs : List Fence) (l m : Line) : Prop where
  copies : l.Copies m
  start : isFenced fs l.start = isFenced gs m.start
  inside : ∀ k < l.content.length, isFenced fs (l.start + k) = isFenced gs (m.start + k)

theorem Line.Copies.length_le (h : l.Copies m) : l.content.length ≤ m.content.length := by
  rcases h with h | h <;> simp [h]

/-- The embeds of copied lines that are shielded alike. -/
theorem embeds_copied (h : List.Forall₂ (ShieldedAlike fs gs) ls ms) :
    (ls.flatMap Line.embeds).map (fun e => (e.value, isFenced fs e.span.start)) =
      (ms.flatMap Line.embeds).map fun e => (e.value, isFenced gs e.span.start) := by
  induction h with
  | nil => rfl
  | @cons l m ls ms hsame _ ih =>
    rw [List.flatMap_cons, List.flatMap_cons, List.map_append, List.map_append, ih]
    congr 1
    rw [Line.embeds, Line.embeds, hsame.copies.scan_eq, List.map_map, List.map_map]
    refine List.map_congr_left fun e he => ?_
    obtain ⟨hlt, hle, -⟩ := marked_recogniseEmbed.of_mem_scan he
    have hinside := hsame.inside e.span.start (by omega)
    rw [Nat.add_comm, Nat.add_comm m.start] at hinside
    exact congrArg _ hinside

/-! ### Cutting out a section -/

/-- Whether a part of the text stands in a section, behind its heading. -/
def Section.holds (sec : Section) (t : Text) (s : Span) : Bool :=
  decide (sec.heading.stop < s.start) && decide (s.stop ≤ sec.stop t)

theorem Section.holds_iff {p : Span} :
    sec.holds t p = true ↔ sec.heading.stop < p.start ∧ p.stop ≤ sec.stop t := by
  simp [holds]

namespace Section.Of

variable (h : sec.Of t)
include h

theorem heading_lt {l : Line} (hl : l ∈ sec.inner ++ sec.after) : sec.heading.stop < l.start :=
  (List.pairwise_cons.mp (List.pairwise_append.mp h.pairwise).2.1).1 l hl

theorem heading_le_stop : sec.heading.stop ≤ sec.stop t := by
  unfold Section.stop
  rcases hafter : sec.after with _ | ⟨next, rest⟩
  · exact t.linedFrom_lines.stop_le (by rw [h.lines]; simp)
  · exact Nat.le_of_lt (h.heading_lt (by simp [hafter]))

/-- A fence that opens in front of the section ends in front of the heading. -/
theorem stop_le_of_opens {f : Fence} (hf : f ∈ t.fences) {opening : Line}
    (hopening : opening ∈ sec.before ++ [sec.heading]) (hstart : f.span.start = opening.start) :
    f.span.stop ≤ sec.heading.start := by
  rcases List.mem_append.mp hopening with hmem | hmem
  · have := h.before_lt hmem
    have := opening.start_le_stop
    have := sec.heading.start_le_stop
    have := h.heading_le_stop
    have := h.fence_cases hf
    omega
  · obtain rfl := List.mem_singleton.mp hmem
    obtain ⟨title, hheading⟩ := h.heading
    refine absurd (Fence.covers_iff.mpr ⟨Nat.le_of_eq hstart, ?_⟩) (hheading.not_covered hf)
    rw [← hstart]
    exact (Text.stands_of_mem_fences hf).lt

/-- A fence that opens in the section ends in it. -/
theorem holds_of_opens {f : Fence} (hf : f ∈ t.fences) {opening : Line}
    (hopening : opening ∈ sec.inner) (hstart : f.span.start = opening.start) :
    sec.holds t f.span = true := by
  have := h.inner_bounds hopening
  have := (Text.stands_of_mem_fences hf).lt
  have := sec.heading.start_le_stop
  have := h.fence_cases hf
  rw [Section.holds_iff]
  omega

/-- **A section is cut out between fences**: the fences of the text are those in front of it, those
of the lines that are kept, and those behind it. -/
theorem exists_fences (hkept : Trims sec.inner kept) :
    ∃ front behind, t.fences = front ++ (fencesFrom t 0 kept ++ behind) ∧
      (∀ f ∈ front, f.span.stop ≤ sec.heading.start) ∧
      (∀ f ∈ fencesFrom t 0 kept, sec.holds t f.span = true) ∧
      ∀ f ∈ behind, sec.stop t ≤ f.span.start := by
  obtain ⟨blank, blank', hinner, hblank, hblank'⟩ := hkept.split
  have hkeptInner : ∀ l ∈ kept, l ∈ sec.inner := fun l hl => by rw [hinner]; simp [hl]
  have hnotBlank : ∀ l : Line, (FenceLine.read? l.content).isSome → l.content.allBlank ≠ true :=
    fun l hl hall => by rw [FenceLine.not_blank hl] at hall; cases hall
  have hlines : t.lines =
      (sec.before ++ sec.heading :: blank) ++ (kept ++ (blank' ++ sec.after)) := by
    rw [h.lines, hinner]
    simp
  -- a blank line in front opens no fence
  have hfore : ∀ f ∈ t.fences, ∀ opening ∈ sec.before ++ sec.heading :: blank,
      (FenceLine.read? opening.content).isSome → f.span.start = opening.start →
        f.span.stop ≤ sec.heading.start := by
    intro f hf opening hopening hread hstart
    rw [List.append_cons, List.mem_append] at hopening
    rcases hopening with hmem | hmem
    · exact h.stop_le_of_opens hf hmem hstart
    · exact absurd (hblank opening hmem) (hnotBlank opening hread)
  have hcut : t.fences = fencesFrom t 0 (sec.before ++ sec.heading :: blank) ++
      fencesFrom t 0 (kept ++ (blank' ++ sec.after)) := by
    unfold Text.fences
    rw [hlines]
    refine fencesFrom_append fun f hf => ?_
    rw [← hlines] at hf
    rintro ⟨opening, hopening, closing, hclosing, hread, -, hspan⟩
    have hstop := hfore f hf opening hopening hread (by rw [hspan])
    have := h.heading_lt (l := closing) (by rw [hinner]; simp at hclosing ⊢; tauto)
    have := closing.start_le_stop
    have := sec.heading.start_le_stop
    simp only [hspan] at hstop
    omega
  have hcut' : fencesFrom t 0 (kept ++ (blank' ++ sec.after)) =
      fencesFrom t 0 kept ++ fencesFrom t 0 (blank' ++ sec.after) := by
    refine fencesFrom_append fun f hf => ?_
    have hf : f ∈ t.fences := by rw [hcut]; exact List.mem_append_right _ hf
    rintro ⟨opening, hopening, closing, hclosing, -, hread, hspan⟩
    have hholds := h.holds_of_opens hf (hkeptInner opening hopening) (by rw [hspan])
    obtain ⟨-, hstop⟩ := Section.holds_iff.mp hholds
    rcases List.mem_append.mp hclosing with hmem | hmem
    · exact absurd (hblank' closing hmem) (hnotBlank closing hread)
    · have := h.stop_le_after hmem
      obtain ⟨g, hg⟩ := Option.isSome_iff_exists.mp hread
      have := Line.start_lt_stop (FenceLine.read?_eq_some_iff.mp hg)
      simp only [hspan] at hstop
      omega
  rw [hcut'] at hcut
  refine ⟨_, _, hcut, fun f hf => ?_, fun f hf => ?_, fun f hf => ?_⟩
  · obtain ⟨opening, hopening, _, -, hread, -, hspan⟩ := (paired_fencesFrom t _).exists_lines hf
    exact hfore f (by rw [hcut]; simp [hf]) opening hopening hread (by rw [hspan])
  · obtain ⟨opening, hopening, _, -, -, -, hspan⟩ := (paired_fencesFrom t _).exists_lines hf
    exact h.holds_of_opens (by rw [hcut]; simp [hf]) (hkeptInner opening hopening) (by rw [hspan])
  · obtain ⟨opening, hopening, _, -, hread, -, hspan⟩ := (paired_fencesFrom t _).exists_lines hf
    rw [hspan]
    rcases List.mem_append.mp hopening with hmem | hmem
    · exact absurd (hblank' opening hmem) (hnotBlank opening hread)
    · exact h.stop_le_after hmem

/-- The fences that a section holds are those of the lines that are kept. -/
theorem filter_fences (hkept : Trims sec.inner kept) :
    (t.fences.filter fun f => sec.holds t f.span) = fencesFrom t 0 kept := by
  obtain ⟨front, behind, hfences, hfront, hheld, hbehind⟩ := h.exists_fences hkept
  have := h.heading_le_stop
  have := sec.heading.start_le_stop
  have hlt : ∀ f ∈ t.fences, f.span.start < f.span.stop :=
    fun f hf => (Text.stands_of_mem_fences hf).lt
  rw [hfences] at hlt ⊢
  rw [List.filter_append, List.filter_append, List.filter_eq_self.mpr hheld,
    List.filter_eq_nil_iff.mpr, List.filter_eq_nil_iff.mpr, List.nil_append, List.append_nil]
  · intro f hf
    have := hlt f (by simp [hf])
    have := hbehind f hf
    rw [Section.holds_iff]
    omega
  · intro f hf
    have := hlt f (by simp [hf])
    have := hfront f hf
    rw [Section.holds_iff]
    omega

/-- No other fence shields a line that is kept. -/
theorem isFenced_kept (hkept : Trims sec.inner kept) {m : Line} (hm : m ∈ kept) :
    isFenced t.fences m.start = isFenced (fencesFrom t 0 kept) m.start := by
  obtain ⟨front, behind, hfences, hfront, -, hbehind⟩ := h.exists_fences hkept
  obtain ⟨blank, blank', hinner, -, -⟩ := hkept.split
  have := h.inner_bounds (l := m) (by rw [hinner]; simp [hm])
  have := sec.heading.start_le_stop
  have hnone : ∀ {fs : List Fence}, (∀ f ∈ fs, f.span.stop ≤ sec.heading.start ∨
      sec.stop t ≤ f.span.start) → isFenced fs m.start = false := by
    intro fs hfs
    refine List.any_eq_false.mpr fun f hf => ?_
    have := hfs f hf
    simp only [Span.contains, Bool.and_eq_true, decide_eq_true_eq]
    omega
  rw [hfences, isFenced, List.any_append, List.any_append]
  rw [show front.any _ = false from hnone fun f hf => .inl (hfront f hf),
    show behind.any _ = false from hnone fun f hf => .inr (hbehind f hf), Bool.false_or,
    Bool.or_false]
  rfl

/-- The embeds that a section holds are those of the lines that are kept. -/
theorem filter_embeds (hkept : Trims sec.inner kept) :
    (t.embeds.filter fun e => sec.holds t e.span) = kept.flatMap Line.embeds := by
  obtain ⟨blank, blank', hinner, hblank, hblank'⟩ := hkept.split
  have hnone : ∀ {lines : List Line}, (∀ l ∈ lines, l.content.allBlank = true ∨
      l.stop ≤ sec.heading.stop ∨ sec.stop t ≤ l.start) →
        (lines.flatMap Line.embeds).filter (fun e => sec.holds t e.span) = [] := by
    intro lines hlines
    refine List.filter_eq_nil_iff.mpr fun e he => ?_
    obtain ⟨l, hl, he⟩ := List.mem_flatMap.mp he
    have := l.embeds_bounds he
    rw [Section.holds_iff]
    rcases hlines l hl with hblank | hout
    · rw [Line.embeds_of_blank hblank] at he
      cases he
    · omega
  have hfront : (((sec.before ++ sec.heading :: blank).flatMap Line.embeds).filter
      fun e => sec.holds t e.span) = [] := by
    refine hnone fun l hl => ?_
    rcases List.mem_append.mp hl with hl | hl
    · have := h.before_lt hl
      have := sec.heading.start_le_stop
      exact .inr (.inl (by omega))
    · rcases List.mem_cons.mp hl with rfl | hl
      · exact .inr (.inl (Nat.le_refl _))
      · exact .inl (hblank l hl)
  have hbehind : (((blank' ++ sec.after).flatMap Line.embeds).filter
      fun e => sec.holds t e.span) = [] := by
    refine hnone fun l hl => ?_
    rcases List.mem_append.mp hl with hl | hl
    · exact .inl (hblank' l hl)
    · exact .inr (.inr (h.stop_le_after hl))
  have hall : (kept.flatMap Line.embeds).filter (fun e => sec.holds t e.span) =
      kept.flatMap Line.embeds := by
    refine List.filter_eq_self.mpr fun e he => ?_
    obtain ⟨l, hl, he⟩ := List.mem_flatMap.mp he
    have := l.embeds_bounds he
    have := h.inner_bounds (l := l) (by rw [hinner]; simp [hl])
    rw [Section.holds_iff]
    omega
  have hlines : t.lines =
      (sec.before ++ sec.heading :: blank) ++ (kept ++ (blank' ++ sec.after)) := by
    rw [h.lines, hinner]
    simp
  rw [t.embeds_eq, hlines, List.flatMap_append, List.filter_append, hfront, List.nil_append,
    List.flatMap_append, List.filter_append, hall, hbehind, List.append_nil]

end Section.Of

/-- **What the text of a section has of the text it is cut out of.** -/
structure Section.Preserved (sec : Section) (t : Text) (kept : List Line) (s : Text) : Prop where
  /-- Its fences are those that stand in the section, in order: each behind the same blanks and
  quote marks, with the same marks and the same info string. -/
  fences : s.fences.map Fence.beginning =
    (t.fences.filter fun f => sec.holds t f.span).map Fence.beginning
  /-- No fence goes over an end of the section. -/
  apart : ∀ f ∈ t.fences, f.span.stop ≤ sec.heading.start ∨ sec.holds t f.span = true ∨
    sec.stop t ≤ f.span.start
  /-- Its lines are those that are kept, up to carriage returns, and a character of them is in a
  fence just when it is in one in the whole text. -/
  lines : List.Forall₂ (ShieldedAlike s.fences t.fences) s.lines kept
  /-- Its embeds are those that stand in the section, in order, and the same ones are in fences. -/
  embeds : s.embeds.map (fun e => (e.value, isFenced s.fences e.span.start)) =
    (t.embeds.filter fun e => sec.holds t e.span).map fun e =>
      (e.value, isFenced t.fences e.span.start)

/-- **The fences of a section.** When the section under a title is cut out of a text, no fence is
opened or closed by it: what is given has the fences and the embeds that stand in the section, and
shields what is shielded in the whole text. -/
theorem section_fences (h : t.sectionUnder? wanted = some s) :
    ∃ (sec : Section) (kept : List Line), sec.Under t wanted ∧ Trims sec.inner kept ∧
      s = Text.unlines (kept.map (·.content)) ∧ sec.Preserved t kept s := by
  obtain ⟨sec, kept, hsec, hkept, rfl⟩ := sectionUnder?_eq_some_iff.mp h
  have hof := hsec.toOf
  obtain ⟨blank, blank', hinner, -, -⟩ := hkept.split
  have hmem : ∀ m ∈ kept, m ∈ t.lines := fun m hm => by
    rw [hof.lines, hinner]
    simp [hm]
  have hcopies := copies_lines_unlines (fun m hm => (t.laid_lines.of_mem (hmem m hm)).2.1)
    fun m hm hnil => absurd (hkept.last m hm) (by rw [hnil]; decide)
  have hsorted : kept.Pairwise fun a b => a.stop < b.start := by
    have hpairs := (List.pairwise_cons.mp (List.pairwise_append.mp hof.pairwise).2.1).2
    have hpairs := (List.pairwise_append.mp hpairs).1
    rw [hinner] at hpairs
    exact (List.pairwise_append.mp (List.pairwise_append.mp hpairs).2.1).1
  generalize hs : Text.unlines (kept.map (·.content)) = s at hcopies ⊢
  have hsame : SameFences s.fences (fencesFrom t 0 kept) s.lines kept :=
    (paired_fencesFrom t kept).copied hcopies s.laid_lines.pairwise hsorted
  have halike : List.Forall₂ (ShieldedAlike s.fences t.fences) s.lines kept := by
    refine List.forall₂_iff_get.mpr ⟨hcopies.length_eq, fun i hi hi' => ?_⟩
    have hcopy := hcopies.get hi hi'
    have hm := List.get_mem kept ⟨i, hi'⟩
    have hstart : isFenced s.fences (s.lines.get ⟨i, hi⟩).start =
        isFenced t.fences (kept.get ⟨i, hi'⟩).start := by
      have hfenced := congrArg (fun shields : List Bool => shields[i]?) hsame.fenced
      rw [hof.isFenced_kept hkept hm]
      simpa [hi, hi'] using hfenced
    refine ⟨hcopy, hstart, fun k hk => ?_⟩
    rw [isFenced_line (List.get_mem ..) hk, hstart,
      isFenced_line (hmem _ hm) (Nat.lt_of_lt_of_le hk hcopy.length_le)]
  refine ⟨sec, kept, hsec, hkept, hs.symm, ?_, fun f hf => ?_, halike, ?_⟩
  · rw [hof.filter_fences hkept]
    exact hsame.beginnings
  · rw [Section.holds_iff]
    exact hof.fence_cases hf
  · rw [hof.filter_embeds hkept, s.embeds_eq]
    exact embeds_copied halike

/-- A quoted fence behind carriage returns, and an embed in it and one outside. A heading ends the
section, and behind it stands a line that opens no fence. -/
theorem section_fences_quoted :
    let t : Text :=
      "# A\r\n\r\n> ~~~ py\r\n> ![[x]]\r\n> ~~~\r\n![[y]]\r\n\n# B\n\x60\x60\x60".toList
    let s : Text := "> ~~~ py\n> ![[x]]\n> ~~~\n![[y]]".toList
    t.sectionUnder? "a".toList = some s ∧
      ∃ (sec : Section) (kept : List Line), sec.Under t "a".toList ∧ Trims sec.inner kept ∧
        s = Text.unlines (kept.map (·.content)) ∧ sec.Preserved t kept s := by
  intro t s
  have h : t.sectionUnder? "a".toList = some s := by decide +kernel
  exact ⟨h, section_fences h⟩

end NotePress
