import NotePress.Lowering.Attributes
import NotePress.Lowering.Directive
import NotePress.Proofs.Scanning
import NotePress.Proofs.Trimming

/-!
# What an attribute block says

Labels, classes, captions and sizes are read at the start of a block or behind a blank
(`Attributes.exists_read_of_mem_scan`), so what a block says has only characters of the block. A
label is one word without a closing brace (`Attributes.label_of_parse`), a size is not empty and has
no double quote (`Attributes.size_of_parse`).
-/

namespace NotePress

namespace Text

/-- A spliced text has only characters of the text and of the replacements. -/
theorem mem_spliceFrom {t : Text} {parts : List (Span × Text)} {pos : Nat} {c : Char}
    (h : c ∈ spliceFrom t pos parts) : c ∈ t ∨ ∃ part ∈ parts, c ∈ part.2 := by
  induction parts generalizing pos with
  | nil => exact .inl (List.mem_of_mem_drop h)
  | cons part rest ih =>
    rw [spliceFrom, List.mem_append, List.mem_append] at h
    rcases h with (h | h) | h
    · exact .inl (List.mem_of_mem_drop (List.mem_of_mem_take h))
    · exact .inr ⟨part, List.mem_cons_self .., h⟩
    · obtain h | ⟨other, hother, hc⟩ := ih h
      · exact .inl h
      · exact .inr ⟨other, List.mem_cons_of_mem _ hother, hc⟩

end Text

namespace Attributes

/-! ### Readers -/

theorem readMarked?_subset {mark : Char} {inner : Char → Bool} {t name after : Text}
    (h : readMarked? mark inner t = some (name, after)) : name ⊆ t := by
  unfold readMarked? at h
  split at h
  · split at h
    · split at h
      · cases h
      · cases h
        exact fun c hc => List.mem_cons_of_mem _ ((List.takeWhile_prefix _).subset hc)
    · cases h
  · cases h

theorem readQuoted?_subset {quote : Char} {t inner after : Text}
    (h : readQuoted? quote t = some (inner, after)) : inner ⊆ t := by
  unfold readQuoted? at h
  split at h
  · split at h
    · split at h
      · cases h
        exact fun c hc => List.mem_cons_of_mem _ ((List.takeWhile_prefix _).subset hc)
      · cases h
    · cases h
  · cases h

theorem readCaption?_subset {t caption after : Text}
    (h : readCaption? t = some (caption, after)) : caption ⊆ t := by
  obtain ⟨value, hvalue, h⟩ := Option.bind_eq_some_iff.mp h
  obtain ⟨rest, hrest, hvalue⟩ := Option.bind_eq_some_iff.mp hvalue
  have hrest : rest ⊆ t := (List.isPrefixOf?_eq_some_iff_append_eq.mp hrest) ▸
    List.subset_append_right _ _
  have hvalue : value ⊆ rest := by
    split at hvalue
    · rename_i behind hbehind
      cases hvalue
      have hbehind : List.dropWhile isBlank rest = '=' :: behind := hbehind
      intro c hc
      refine (List.dropWhile_suffix isBlank).subset ?_
      rw [hbehind]
      exact List.mem_cons_of_mem _ ((List.dropWhile_suffix _).subset hc)
    · cases hvalue
  have hcaption : caption ⊆ value := by
    split at h
    · rename_i found hfound
      cases h
      exact readQuoted?_subset hfound
    · exact readQuoted?_subset h
  exact fun c hc => hrest (hvalue (hcaption hc))

theorem readMarked?_inner {mark : Char} {inner : Char → Bool} {t name after : Text}
    (h : readMarked? mark inner t = some (name, after)) :
    name ≠ [] ∧ ∀ c ∈ name, inner c = true := by
  unfold readMarked? at h
  split at h
  · split at h
    · split at h
      · cases h
      · rename_i hne
        cases h
        exact ⟨hne, fun c hc => List.mem_takeWhile_imp hc⟩
    · cases h
  · cases h

/-- What is written in quotes has no quote inside. -/
theorem readQuoted?_eq_some {quote : Char} {t inner after : Text}
    (h : readQuoted? quote t = some (inner, after)) :
    t = quote :: (inner ++ quote :: after) ∧ quote ∉ inner := by
  unfold readQuoted? at h
  split at h
  · rename_i c rest
    split at h
    · rename_i hc
      split at h
      · rename_i d behind hbehind
        cases h
        have hd : d = quote := by
          have hnot := List.head?_dropWhile_not (· ≠ quote) rest
          rw [hbehind] at hnot
          simpa using hnot
        refine ⟨?_, fun hmem => by simpa using List.mem_takeWhile_imp hmem⟩
        have hsplit :=
          List.takeWhile_append_dropWhile (p := fun d => decide (d ≠ quote)) (l := rest)
        rw [hbehind, hd] at hsplit
        rw [hc, hsplit]
      · cases h
    · cases h
  · cases h

/-- A size is read from quotes, or up to a blank or a quote. -/
theorem readSizeValue?_cases {t raw after : Text} (h : readSizeValue? t = some (raw, after)) :
    (∃ inner, raw = '"' :: inner ++ ['"'] ∧ '"' ∉ inner ∧ raw <+: t) ∨
      (∀ c ∈ raw, isBlank c = false) ∧ '"' ∉ raw ∧ raw <+: t := by
  unfold readSizeValue? at h
  split at h
  · rename_i inner behind hquoted
    cases h
    obtain ⟨ht, hinner⟩ := readQuoted?_eq_some hquoted
    refine .inl ⟨inner, rfl, hinner, after, ?_⟩
    rw [ht]
    simp
  · simp only at h
    split at h
    · cases h
    · cases h
      refine .inr ⟨fun c hc => ?_, fun hc => ?_, List.takeWhile_prefix _⟩
      · have hinner := List.mem_takeWhile_imp hc
        simp only [Bool.and_eq_true, Bool.not_eq_true'] at hinner
        exact hinner.1
      · simpa using List.mem_takeWhile_imp hc

theorem readKey?_suffix {key t value : Text} (h : readKey? key t = some value) : value <:+ t := by
  obtain ⟨rest, hrest, h⟩ := Option.bind_eq_some_iff.mp h
  have hrest : rest <:+ t :=
    ⟨key, List.isPrefixOf?_eq_some_iff_append_eq.mp hrest⟩
  split at h
  · rename_i behind hbehind
    cases h
    have hsign : '=' :: behind <:+ rest := by
      rw [← hbehind]
      exact List.dropWhile_suffix _
    have hvalue : Text.trimStart behind <:+ behind := List.dropWhile_suffix _
    exact ((hvalue.trans (List.suffix_cons _ _)).trans hsign).trans hrest
  · cases h

/-- A size stands behind its key. -/
theorem readSize?_value {t raw after : Text} {isWidth : Bool}
    (h : readSize? t = some ((isWidth, raw), after)) :
    ∃ value, value <:+ t ∧ readSizeValue? value = some (raw, after) := by
  have hkey : ∀ {flag : Bool} {key : Text},
      ((readKey? key t).bind readSizeValue?).map (fun p => ((flag, p.1), p.2)) =
        some ((isWidth, raw), after) →
      ∃ value, value <:+ t ∧ readSizeValue? value = some (raw, after) := by
    intro flag key h
    obtain ⟨p, hp, he⟩ := Option.map_eq_some_iff.mp h
    obtain ⟨value, hvalue, hread⟩ := Option.bind_eq_some_iff.mp hp
    cases he
    exact ⟨value, readKey?_suffix hvalue, hread⟩
  unfold readSize? at h
  simp only at h
  split at h
  · rename_i found hfound
    cases h
    exact hkey hfound
  · exact hkey h

/-! ### Hits in a block -/

/-- A reader is tried at the start of the block, or behind a blank. -/
theorem of_behindBlank {α : Type} {read : Text → Option (α × Text)} {before : Option Char}
    {t : Text} {n : Nat} {a : α} (h : behindBlank read before t = some (n, a)) :
    (before = none ∧ ∃ after, read t = some (a, after)) ∨
      ∃ b rest after, t = b :: rest ∧ isBlank b = true ∧ read rest = some (a, after) := by
  unfold behindBlank at h
  simp only at h
  split at h
  · rename_i found after hhere
    cases h
    split at hhere
    · rename_i hnone
      exact .inl ⟨Option.isNone_iff_eq_none.mp hnone, after, hhere⟩
    · cases hhere
  · cases t with
    | nil => cases h
    | cons b rest =>
      simp only at h
      split at h
      · rename_i hb
        obtain ⟨p, hp, he⟩ := Option.map_eq_some_iff.mp h
        cases he
        exact .inr ⟨b, rest, p.2, rfl, hb, hp⟩
      · cases h

/-- **What is found was read at the start of the block or behind a blank.** -/
theorem exists_read_of_mem_scan {α : Type} {read : Text → Option (α × Text)} {block : Text}
    {h : Hit α} (hmem : h ∈ block.scan (behindBlank read)) :
    ∃ rest after, read rest = some (h.value, after) ∧
      (rest = block ∨ ∃ b, isBlank b = true ∧ b :: rest <:+ block) := by
  obtain ⟨n, hfound, -⟩ := Text.recognised_of_mem_scan hmem
  rcases of_behindBlank hfound with ⟨hnone, after, hread⟩ | ⟨b, rest, after, hrest, hb, hread⟩
  · have hfront := List.take_append_drop h.span.start block
    rw [List.getLast?_eq_none_iff.mp hnone, List.nil_append] at hfront
    exact ⟨block, after, hfront ▸ hread, .inl rfl⟩
  · exact ⟨rest, after, hread, .inr ⟨b, hb, hrest ▸ List.drop_suffix _ _⟩⟩

/-- What is found in a block has only characters of the block. -/
theorem value_subset {read : Text → Option (Text × Text)}
    (hread : ∀ t found after, read t = some (found, after) → found ⊆ t) {block : Text}
    {h : Hit Text} (hmem : h ∈ block.scan (behindBlank read)) : h.value ⊆ block := by
  obtain ⟨rest, after, hfound, hrest⟩ := exists_read_of_mem_scan hmem
  refine fun c hc => ?_
  have hc := hread _ _ _ hfound hc
  rcases hrest with rfl | ⟨b, -, hsuffix⟩
  · exact hc
  · exact hsuffix.subset (List.mem_cons_of_mem _ hc)

/-! ### Parts of a block -/

/-- A block with a space in the place of each caption. -/
def withoutCaptions (block : Text) : Text :=
  block.splice ((block.scan (behindBlank readCaption?)).map fun h => (h.span, [' ']))

theorem mem_withoutCaptions {block : Text} {c : Char} (h : c ∈ withoutCaptions block) :
    c ∈ block ∨ c = ' ' := by
  rcases Text.mem_spliceFrom h with h | ⟨part, hpart, h⟩
  · exact .inl h
  · obtain ⟨_, -, rfl⟩ := List.mem_map.mp hpart
    exact .inr (List.mem_singleton.mp h)

/-- A value without the double quotes around it. -/
def unquoted (raw : Text) : Text := Text.dropTail (· = '"') (raw.dropWhile (· = '"'))

theorem unquoted_eq_self {raw : Text} (h : '"' ∉ raw) : unquoted raw = raw := by
  have hfront : raw.dropWhile (· = '"') = raw := by
    cases raw with
    | nil => rfl
    | cons c rest =>
      exact List.dropWhile_cons_of_neg (by simpa using (List.ne_of_not_mem_cons h).symm)
  unfold unquoted
  rw [hfront]
  refine Text.dropTail_eq_self fun c hc => ?_
  have hc := List.mem_of_getLast? hc
  exact decide_eq_false fun heq => h (heq ▸ hc)

theorem unquoted_quoted {inner : Text} (h : '"' ∉ inner) :
    unquoted ('"' :: inner ++ ['"']) = inner := by
  have hback : ∀ c ∈ ['"'], decide (c = '"') = true := List.forall_mem_singleton.mpr rfl
  have hinner := unquoted_eq_self h
  unfold unquoted at *
  rw [List.cons_append, List.dropWhile_cons_of_pos (by rfl)]
  cases inner with
  | nil => rfl
  | cons c rest =>
    have hc : ¬decide (c = '"') = true := by
      simpa using (List.ne_of_not_mem_cons h).symm
    rw [List.dropWhile_cons_of_neg (p := fun d => decide (d = '"')) hc] at hinner
    rw [List.cons_append, List.dropWhile_cons_of_neg (p := fun d => decide (d = '"')) hc,
      ← List.cons_append, Text.dropTail_append_of_all hback, hinner]

theorem setSize_eq (a : Attributes) (isWidth : Bool) (raw : Text) :
    a.setSize isWidth raw = if unquoted raw = [] then a
      else if isWidth then { a with width := some (unquoted raw) }
      else { a with height := some (unquoted raw) } :=
  rfl

/-- Sizes leave the rest as it is. -/
theorem foldl_setSize (a : Attributes) (sizes : List (Hit (Bool × Text))) :
    (sizes.foldl (fun a h => a.setSize h.value.1 h.value.2) a).label = a.label ∧
      (sizes.foldl (fun a h => a.setSize h.value.1 h.value.2) a).className = a.className ∧
      (sizes.foldl (fun a h => a.setSize h.value.1 h.value.2) a).caption = a.caption := by
  induction sizes generalizing a with
  | nil => exact ⟨rfl, rfl, rfl⟩
  | cons h rest ih =>
    have hset : (a.setSize h.value.1 h.value.2).label = a.label ∧
        (a.setSize h.value.1 h.value.2).className = a.className ∧
        (a.setSize h.value.1 h.value.2).caption = a.caption := by
      rw [setSize_eq]
      split
      · exact ⟨rfl, rfl, rfl⟩
      · split <;> exact ⟨rfl, rfl, rfl⟩
    obtain ⟨hlabel, hclass, hcaption⟩ := ih (a.setSize h.value.1 h.value.2)
    rw [List.foldl_cons]
    exact ⟨hlabel.trans hset.1, hclass.trans hset.2.1, hcaption.trans hset.2.2⟩

/-- One of the sizes. -/
def HasSize (a : Attributes) (v : Text) : Prop := a.width = some v ∨ a.height = some v

theorem HasSize.of_setSize {a : Attributes} {isWidth : Bool} {raw v : Text}
    (h : (a.setSize isWidth raw).HasSize v) : a.HasSize v ∨ v ≠ [] ∧ v = unquoted raw := by
  rw [setSize_eq] at h
  by_cases hne : unquoted raw = []
  · rw [if_pos hne] at h
    exact .inl h
  · rw [if_neg hne] at h
    have hread : some (unquoted raw) = some v → v ≠ [] ∧ v = unquoted raw := by
      rintro ⟨⟩
      exact ⟨hne, rfl⟩
    cases isWidth with
    | true => exact h.elim (fun h => .inr (hread h)) fun h => .inl (.inr h)
    | false => exact h.elim (fun h => .inl (.inl h)) fun h => .inr (hread h)

/-- A size that is set was read. -/
theorem HasSize.of_foldl_setSize {sizes : List (Hit (Bool × Text))} {a : Attributes} {v : Text}
    (h : (sizes.foldl (fun a h => a.setSize h.value.1 h.value.2) a).HasSize v) :
    a.HasSize v ∨ v ≠ [] ∧ ∃ h ∈ sizes, v = unquoted h.value.2 := by
  induction sizes generalizing a with
  | nil => exact .inl h
  | cons first rest ih =>
    rcases ih h with hset | ⟨hne, other, hother, hv⟩
    · exact hset.of_setSize.imp_right fun ⟨hne, hv⟩ => ⟨hne, first, List.mem_cons_self .., hv⟩
    · exact .inr ⟨hne, other, List.mem_cons_of_mem _ hother, hv⟩

section

variable {block : Text}

theorem parse_label (block : Text) : (parse block).label =
    ((withoutCaptions block).scan (behindBlank (readMarked? '#' isLabelChar))).head?.map
      (·.value) :=
  (foldl_setSize _ _).1

theorem parse_caption (block : Text) :
    (parse block).caption = (block.scan (behindBlank readCaption?)).head?.map (·.value) :=
  (foldl_setSize _ _).2.2

/-- **A label is one word** without a closing brace, of characters of the block. -/
theorem label_of_parse {label : Text} (h : (parse block).label = some label) :
    label ≠ [] ∧ (∀ c ∈ label, isLabelChar c = true) ∧ label ⊆ withoutCaptions block := by
  rw [parse_label] at h
  obtain ⟨hit, hhit, rfl⟩ := Option.map_eq_some_iff.mp h
  have hhit := List.mem_of_head? hhit
  obtain ⟨rest, after, hread, -⟩ := exists_read_of_mem_scan hhit
  obtain ⟨hne, hchars⟩ := readMarked?_inner hread
  exact ⟨hne, hchars, value_subset (fun _ _ _ => readMarked?_subset) hhit⟩

theorem caption_of_parse {caption : Text} (h : (parse block).caption = some caption) :
    caption ⊆ block := by
  rw [parse_caption] at h
  obtain ⟨hit, hhit, rfl⟩ := Option.map_eq_some_iff.mp h
  exact value_subset (fun _ _ _ => readCaption?_subset) (List.mem_of_head? hhit)

/-- A size of a block was read in it. -/
theorem exists_hit_of_parse {v : Text} (h : (parse block).HasSize v) :
    v ≠ [] ∧ ∃ h ∈ (withoutCaptions block).scan (behindBlank readSize?), v = unquoted h.value.2 :=
  h.of_foldl_setSize.resolve_left (by simp [HasSize])

/-- **A size is not empty and has no double quote**, and it has only characters of the block and
spaces. -/
theorem size_of_parse {v : Text} (h : (parse block).HasSize v) :
    v ≠ [] ∧ '"' ∉ v ∧ v ⊆ withoutCaptions block := by
  obtain ⟨hne, ⟨span, isWidth, raw⟩, hhit, rfl⟩ := exists_hit_of_parse h
  obtain ⟨rest, after, hread, hrest⟩ := exists_read_of_mem_scan hhit
  obtain ⟨value, hvalue, hread⟩ := readSize?_value hread
  have hrest : rest ⊆ withoutCaptions block := by
    rcases hrest with rfl | ⟨b, -, hsuffix⟩
    · exact List.Subset.refl _
    · exact fun c hc => hsuffix.subset (List.mem_cons_of_mem _ hc)
  have hraw : raw <+: value → raw ⊆ withoutCaptions block :=
    fun hbegins c hc => hrest (hvalue.subset (hbegins.subset hc))
  rcases readSizeValue?_cases hread with ⟨inner, rfl, hinner, hbegins⟩ | ⟨-, hquote, hbegins⟩
  · simp only [unquoted_quoted hinner] at hne ⊢
    exact ⟨hne, hinner, fun c hc => hraw hbegins (by simp [hc])⟩
  · simp only [unquoted_eq_self hquote] at hne ⊢
    exact ⟨hne, hquote, hraw hbegins⟩

/-- A label in a namespace has only characters of both and the colon between them. -/
theorem mem_labelIn {label space : Text} {c : Char} (hc : c ∈ labelIn label space) :
    c ∈ space ∨ c = ':' ∨ c ∈ label := by
  have htrimmed : label.trim.dropWhile (· = '#') ⊆ label := fun c hc =>
    Text.trim_subset _ ((List.dropWhile_suffix _).subset hc)
  unfold labelIn at hc
  simp only at hc
  split at hc
  · exact .inr (.inr (htrimmed hc))
  · rcases List.mem_append.mp hc with hc | hc
    · rcases List.mem_append.mp hc with hc | hc
      · exact .inl hc
      · exact .inr (.inl (List.mem_singleton.mp hc))
    · exact .inr (.inr (htrimmed hc))

theorem labelIn_ne_nil (label space : Text) : labelIn label space ≠ [] := by
  unfold labelIn
  simp only
  split
  · rename_i hstarts
    intro hnil
    rw [hnil, Text.startsWith, List.isPrefixOf_iff_prefix, List.prefix_nil] at hstarts
    exact List.append_ne_nil_of_right_ne_nil _ (List.cons_ne_nil _ _) hstarts
  · exact List.append_ne_nil_of_left_ne_nil
      (List.append_ne_nil_of_right_ne_nil _ (List.cons_ne_nil _ _)) _

/-- A label in a namespace is one word too. -/
theorem isLabelChar_of_mem_labelIn {label space : Text} {c : Char}
    (hspace : space.all isLabelChar = true) (hlabel : ∀ c ∈ label, isLabelChar c = true)
    (hc : c ∈ labelIn label space) : isLabelChar c = true := by
  rcases mem_labelIn hc with hc | rfl | hc
  · exact List.all_eq_true.mp hspace c hc
  · rfl
  · exact hlabel c hc

/-- The label and the caption of a block on one line are on one line. -/
theorem parse_no_break (hblock : '\n' ∉ block) :
    (∀ label ∈ (parse block).label, '\n' ∉ label) ∧
      ∀ caption ∈ (parse block).caption, '\n' ∉ caption := by
  constructor
  · intro label hlabel hbreak
    have hbare := (label_of_parse hlabel).2.2 hbreak
    exact (mem_withoutCaptions hbare).elim hblock (by decide)
  · intro caption hcaption hbreak
    exact hblock (caption_of_parse hcaption hbreak)

end

end Attributes

end NotePress
