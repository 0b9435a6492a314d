import NotePress.Note.Section
import NotePress.Proofs.Bytes
import NotePress.Proofs.Lines
import NotePress.Proofs.Lists
import NotePress.Proofs.Trimming

/-!
# Front matter

A note may begin with a block that is no part of its body: a first line `---`, and the lines behind
it up to the first one that is `---` or `...`, whatever blanks that one ends with. The body is what
is behind the closing line and its break (`Text.Behind`), so it begins where a line of the text
does, and nothing of the text is lost or doubled (`body_behind_front_matter`).

The closing line is searched in what is behind the first line, where all lines stand nearer to the
front than they do in the whole text. On texts that are kept as bytes the place to cut at is the sum
of two offsets, how far the rest is from the start and how far the closing line's end is from there.
No such cut falls inside a character (`Text.cutFrontMatter?_eq_some`).
-/

namespace NotePress

/-- **A line that closes front matter**: `---` or `...`, with nothing but blanks behind. -/
def Line.ClosesFrontMatter (l : Line) : Prop :=
  ∃ marks back, l.content = marks ++ back ∧ (marks = ['-', '-', '-'] ∨ marks = ['.', '.', '.']) ∧
    ∀ c ∈ back, isBlank c = true

/-- Front matter, with the lines behind it. -/
structure FrontMatter where
  opening : Line
  inner : List Line
  closing : Line
  after : List Line

/-- **The front matter of a text**: from a first line `---` to the first later line that closes
it. -/
structure FrontMatter.Of (f : FrontMatter) (t : Text) : Prop where
  lines : t.lines = f.opening :: (f.inner ++ f.closing :: f.after)
  opens : f.opening.content = ['-', '-', '-']
  inside : ∀ l ∈ f.inner, ¬l.ClosesFrontMatter
  closes : f.closing.ClosesFrontMatter

namespace Text

/-- Whether the first line is `---` and some later line closes front matter. -/
def HasFrontMatter (t : Text) : Prop :=
  t.lines.head?.map (·.content) = some ['-', '-', '-'] ∧ ∃ l ∈ t.lines.tail, l.ClosesFrontMatter

/-- **What is behind a line of a text and its break**; nothing, if it is the last one and has no
break. -/
inductive Behind (t : Text) (l : Line) : Text → Prop where
  | line {brk rest : Text} (hbreak : LineBreak l.content brk) (h : t.drop l.stop = brk ++ rest) :
      Behind t l rest
  | last (h : t.drop l.stop = []) : Behind t l []

/-- The text behind front matter, by a cut at a byte offset of the whole text. -/
def cutFrontMatter? (t : Text) : Option Text :=
  match afterFrontMatterOpening? t with
  | none => some t
  | some rest =>
    match rest.lines.find? endsFrontMatter with
    | none => some t
    | some line =>
      let offset := byteLength t - byteLength rest
      (t.cutAtByte? (offset + (Span.bytes rest ⟨line.start, line.stop⟩).stop)).map
        fun p => dropBreak p.2

end Text

variable {t rest : Text} {l : Line} {f : FrontMatter}

/-! ### The closing line -/

theorem Line.closesFrontMatter_iff : l.ClosesFrontMatter ↔ endsFrontMatter l = true := by
  have hmarks : ∀ marks : Text, marks = ['-', '-', '-'] ∨ marks = ['.', '.', '.'] →
      ∀ c ∈ marks.getLast?, isBlank c = false := by
    rintro _ (rfl | rfl) _ ⟨⟩ <;> decide
  simp only [endsFrontMatter, Bool.or_eq_true, decide_eq_true_eq]
  constructor
  · rintro ⟨marks, back, hcontent, hclosing, hback⟩
    have htrim : l.content.trimEnd = marks :=
      Text.dropTail_eq_iff.mpr ⟨back, hcontent, hback, hmarks marks hclosing⟩
    rwa [htrim]
  · intro h
    obtain ⟨back, hcontent, hback, -⟩ :=
      Text.dropTail_eq_iff.mp (rfl : Text.dropTail isBlank l.content = l.content.trimEnd)
    exact ⟨_, back, hcontent, h, hback⟩

/-- It does not depend on where a line stands. -/
theorem Line.closesFrontMatter_shift {k : Nat} :
    (l.shift k).ClosesFrontMatter ↔ l.ClosesFrontMatter := Iff.rfl

instance : DecidablePred Line.ClosesFrontMatter :=
  fun _ => decidable_of_iff _ Line.closesFrontMatter_iff.symm

instance : DecidablePred Text.HasFrontMatter :=
  fun t => inferInstanceAs (Decidable (t.lines.head?.map (·.content) = some ['-', '-', '-'] ∧
    ∃ l ∈ t.lines.tail, l.ClosesFrontMatter))

/-- A text has front matter if there are lines that are it. -/
theorem hasFrontMatter_iff : t.HasFrontMatter ↔ ∃ f : FrontMatter, f.Of t := by
  constructor
  · rintro ⟨hfirst, l, hl, hcloses⟩
    obtain ⟨opening, hhead, hopens⟩ := Option.map_eq_some_iff.mp hfirst
    rcases exists_first_or Line.ClosesFrontMatter t.lines.tail with
      hnone | ⟨inner, closing, after, hlater, hclosing, hinner⟩
    · exact absurd hcloses (hnone l hl)
    · refine ⟨⟨opening, inner, closing, after⟩, ?_, hopens, hinner, hclosing⟩
      rw [← hlater]
      exact List.eq_cons_of_mem_head? hhead
  · rintro ⟨f, hf⟩
    refine ⟨?_, f.closing, ?_, hf.closes⟩
    · rw [hf.lines, List.head?_cons, Option.map_some, hf.opens]
    · rw [hf.lines]
      simp

/-! ### The first line -/

/-- What is behind the first line is found just if that is `---` and has a break. -/
theorem afterFrontMatterOpening?_eq_some_iff : afterFrontMatterOpening? t = some rest ↔
    ∃ brk, LineBreak ['-', '-', '-'] brk ∧ t = ['-', '-', '-'] ++ (brk ++ rest) := by
  constructor
  · intro h
    unfold afterFrontMatterOpening? at h
    split at h <;> cases h
    · exact ⟨_, .lineFeed (by decide), rfl⟩
    · exact ⟨_, .carriageReturn, rfl⟩
  · rintro ⟨brk, hbreak, rfl⟩
    cases hbreak <;> rfl

/-- The lines behind the first one are those of the rest, moved by what is in front of it. -/
theorem lines_of_opening (h : afterFrontMatterOpening? t = some rest) :
    ∃ front, t = front ++ rest ∧
      t.lines = ⟨0, ['-', '-', '-']⟩ :: rest.lines.map (Line.shift front.length) := by
  obtain ⟨brk, hbreak, rfl⟩ := afterFrontMatterOpening?_eq_some_iff.mp h
  exact ⟨['-', '-', '-'] ++ brk, (List.append_assoc ..).symm,
    Text.lines_line (by decide) hbreak rest⟩

/-- In front of front matter nothing is in the way of the rest. -/
theorem FrontMatter.Of.exists_rest (h : f.Of t) :
    ∃ rest, afterFrontMatterOpening? t = some rest := by
  have hlines := t.linedFrom_lines
  rw [h.lines] at hlines
  generalize hlater : f.inner ++ f.closing :: f.after = later at hlines
  generalize hopening : f.opening = opening at hlines
  cases hlines with
  | last => simp at hlater
  | @line _ content brk _ hdrop _ hbreak _ =>
    obtain rfl : content = ['-', '-', '-'] := by rw [← h.opens, hopening]
    exact ⟨_, afterFrontMatterOpening?_eq_some_iff.mpr ⟨brk, hbreak, hdrop⟩⟩

/-! ### The body -/

/-- Front matter is closed by a line of the rest. -/
theorem FrontMatter.Of.find?_eq_some (h : f.Of t)
    (hrest : afterFrontMatterOpening? t = some rest) :
    ∃ front line, t = front ++ rest ∧ rest.lines.find? endsFrontMatter = some line ∧
      f.closing = line.shift front.length := by
  obtain ⟨front, hsplit, hlines⟩ := lines_of_opening hrest
  have hlater : rest.lines.map (Line.shift front.length) = f.inner ++ f.closing :: f.after :=
    (List.cons.inj (hlines.symm.trans h.lines)).2
  obtain ⟨inner, others, hrestLines, hinner, hothers⟩ := List.map_eq_append_iff.mp hlater
  obtain ⟨line, after, rfl, hline, -⟩ := List.map_eq_cons_iff.mp hothers
  have hcloses : line.ClosesFrontMatter := by
    rw [← Line.closesFrontMatter_shift, hline]
    exact h.closes
  refine ⟨front, line, hsplit, ?_, hline.symm⟩
  rw [List.find?_eq_some_iff_append]
  refine ⟨Line.closesFrontMatter_iff.mp hcloses, inner, after, hrestLines, fun l hl => ?_⟩
  have hinside := h.inside (l.shift front.length) (hinner ▸ List.mem_map_of_mem hl)
  rw [Line.closesFrontMatter_shift, Line.closesFrontMatter_iff] at hinside
  simpa using hinside

/-- The body is cut off behind the closing line. -/
theorem FrontMatter.Of.withoutFrontMatter_eq (h : f.Of t) :
    t.withoutFrontMatter = dropBreak (t.drop f.closing.stop) := by
  obtain ⟨rest, hrest⟩ := h.exists_rest
  obtain ⟨front, line, rfl, hfind, hclosing⟩ := h.find?_eq_some hrest
  unfold Text.withoutFrontMatter
  simp only [hrest, hfind]
  rw [hclosing, Line.stop_shift, Nat.add_comm, ← List.drop_drop, List.drop_left]

theorem withoutFrontMatter_eq_self (h : ¬t.HasFrontMatter) : t.withoutFrontMatter = t := by
  unfold Text.withoutFrontMatter
  cases hrest : afterFrontMatterOpening? t with
  | none => rfl
  | some rest =>
    cases hfind : rest.lines.find? endsFrontMatter with
    | none => simp only [hfind]
    | some line =>
      obtain ⟨front, -, hlines⟩ := lines_of_opening hrest
      have hends := List.find?_some hfind
      refine absurd ⟨?_, line.shift front.length, ?_, Line.closesFrontMatter_iff.mpr hends⟩ h
      · rw [hlines]
        rfl
      · rw [hlines]
        exact List.mem_map_of_mem (List.mem_of_find?_eq_some hfind)

/-- Where a line ends its break is dropped, and the later lines start there. -/
theorem Text.LinedFrom.exists_next {pos : Nat} {after : List Line}
    (h : t.LinedFrom pos (l :: after)) : ∃ next, t.LinedFrom next after ∧
      dropBreak (t.drop l.stop) = t.drop next ∧ t.Behind l (t.drop next) := by
  cases h with
  | @last _ content h hne hfree =>
    have hstop : t.drop (Line.stop ⟨pos, content⟩) = [] := by
      rw [Line.stop, ← List.drop_drop, h, List.drop_length]
    refine ⟨_, .done hstop, ?_, ?_⟩
    · rw [hstop]
      rfl
    · have hlast := Behind.last hstop
      rwa [← hstop] at hlast
  | @line _ content brk _ h hfree hbreak rest =>
    have hstop : t.drop (Line.stop ⟨pos, content⟩) =
        brk ++ t.drop (pos + content.length + brk.length) := by
      rw [Line.stop, ← List.drop_drop, h, List.drop_left]
    refine ⟨_, rest, ?_, .line hbreak hstop⟩
    rw [hstop]
    cases hbreak <;> rfl

/-- The body is behind the closing line, and starts where a line does. -/
theorem FrontMatter.Of.behind (h : f.Of t) : t.Behind f.closing t.withoutFrontMatter ∧
    (t.withoutFrontMatter = [] ∨ ∃ l ∈ t.lines, t.withoutFrontMatter = t.drop l.start) := by
  have hlines := t.linedFrom_lines
  rw [h.lines, ← List.cons_append] at hlines
  obtain ⟨pos, hclosing⟩ := hlines.append_right
  obtain ⟨next, hafter, hdrop, hbehind⟩ := hclosing.exists_next
  rw [h.withoutFrontMatter_eq, hdrop]
  refine ⟨hbehind, hafter.starts.imp_right ?_⟩
  rintro ⟨l, hl, hstart⟩
  exact ⟨l, by rw [h.lines]; simp [hl], hstart⟩

/-! ### Cuts at byte offsets -/

/-- **A cut at a byte offset** finds the body, and is not inside a character. -/
theorem Text.cutFrontMatter?_eq_some (t : Text) :
    t.cutFrontMatter? = some t.withoutFrontMatter := by
  unfold cutFrontMatter? withoutFrontMatter
  cases hrest : afterFrontMatterOpening? t with
  | none => rfl
  | some rest =>
    obtain ⟨front, rfl, -⟩ := lines_of_opening hrest
    cases hfind : rest.lines.find? endsFrontMatter with
    | none => simp only [hfind]
    | some line =>
      have hoffset : byteLength (front ++ rest) - byteLength rest +
          (Span.bytes rest ⟨line.start, line.stop⟩).stop =
            byteLength (front ++ rest.take line.stop) := by
        rw [byteLength_append, byteLength_append, Nat.add_sub_cancel]
        rfl
      have hsplit : front ++ rest = front ++ rest.take line.stop ++ rest.drop line.stop := by
        rw [List.append_assoc, List.take_append_drop]
      have hcut : (front ++ rest).cutAtByte? (byteLength (front ++ rest) - byteLength rest +
          (Span.bytes rest ⟨line.start, line.stop⟩).stop) =
            some (front ++ rest.take line.stop, rest.drop line.stop) :=
        cutAtByte?_eq_some_iff.mpr ⟨hsplit, hoffset.symm⟩
      simp only [hfind, hcut, Option.map_some]

/-- **The body of a note.** A text whose first line is not `---`, or that has no later line to close
the front matter, is left as it is. Of any other one exactly that is left which is behind the first
closing line and its break, a line feed or a pair, and nothing if that line has no break. So what is
left is an end of the text, and it is empty or starts where a line does; a cut at a byte offset
gives the same. -/
theorem body_behind_front_matter (t : Text) :
    (¬t.HasFrontMatter → t.withoutFrontMatter = t) ∧
      (t.HasFrontMatter →
        ∃ f : FrontMatter, f.Of t ∧ t.Behind f.closing t.withoutFrontMatter) ∧
      t.withoutFrontMatter <:+ t ∧
      (t.withoutFrontMatter = [] ∨ ∃ l ∈ t.lines, t.withoutFrontMatter = t.drop l.start) ∧
      t.cutFrontMatter? = some t.withoutFrontMatter := by
  have hstart : t.withoutFrontMatter = [] ∨
      ∃ l ∈ t.lines, t.withoutFrontMatter = t.drop l.start := by
    by_cases hfront : t.HasFrontMatter
    · obtain ⟨f, hf⟩ := hasFrontMatter_iff.mp hfront
      exact hf.behind.2
    · rw [withoutFrontMatter_eq_self hfront]
      exact t.linedFrom_lines.starts
  refine ⟨withoutFrontMatter_eq_self, fun hfront => ?_, ?_, hstart, t.cutFrontMatter?_eq_some⟩
  · obtain ⟨f, hf⟩ := hasFrontMatter_iff.mp hfront
    exact ⟨f, hf, hf.behind.1⟩
  · rcases hstart with hnil | ⟨l, -, hdrop⟩
    · rw [hnil]
      exact List.nil_suffix
    · rw [hdrop]
      exact List.drop_suffix ..

/-- A note with breaks of two characters and a wide one in its front matter, which ends with dots
and a blank. -/
def dottedNote : Text := "---\r\ntitle: \u00e9\r\n...\u00a0\r\nBody\r\n".toList

/-- A note that opens front matter and does not close it. -/
def unclosedNote : Text := "---\ntitle: x\n --- \nBody".toList

theorem body_behind_front_matter_dots :
    dottedNote.HasFrontMatter ∧ ¬unclosedNote.HasFrontMatter ∧
      dottedNote.withoutFrontMatter = "Body\r\n".toList ∧
      (∃ f : FrontMatter, f.Of dottedNote ∧ dottedNote.Behind f.closing "Body\r\n".toList) ∧
      dottedNote.cutFrontMatter? = some "Body\r\n".toList ∧
      unclosedNote.withoutFrontMatter = unclosedNote := by
  have hdotted : dottedNote.HasFrontMatter := by decide +kernel
  have hunclosed : ¬unclosedNote.HasFrontMatter := by decide +kernel
  have hbody : dottedNote.withoutFrontMatter = "Body\r\n".toList := by decide +kernel
  obtain ⟨-, hbehind, -, -, hcut⟩ := body_behind_front_matter dottedNote
  exact ⟨hdotted, hunclosed, hbody, hbody ▸ hbehind hdotted, hbody ▸ hcut,
    (body_behind_front_matter unclosedNote).1 hunclosed⟩

/-- A closing line that has no break leaves nothing, and a lone carriage return is no break. -/
example : Text.withoutFrontMatter "---\na\n...".toList = [] ∧
    Text.withoutFrontMatter "---\r---\nx".toList = "---\r---\nx".toList := by
  decide +kernel

end NotePress
