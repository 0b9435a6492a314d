import NotePress.Proofs.AttributeBlocks
import NotePress.Proofs.Occurrences

/-!
# Blocks that are written word by word

What is written in a block stands in words with one space between them. A scan reads such a block
one word after the other (`Attributes.scan_words`), so it gives back every label and every size that
is one word (`Attributes.parse_words`). A size is written without the quotes that it was read with:
with a blank in it, it is several words, and something else is read back
(`Attributes.ForFigure.parse_words_iff`).
-/

namespace NotePress

namespace Text

variable {α : Type}

/-- The characters that a hit covers are skipped. -/
theorem scanFrom_skip (recognise : Recogniser α) (before : Char) (pos : Nat) (covered rest : Text) :
    ∃ before', scanFrom recognise (some before) covered.length pos (covered ++ rest) =
      scanFrom recognise (some before') 0 (pos + covered.length) rest := by
  induction covered generalizing before pos with
  | nil => exact ⟨before, rfl⟩
  | cons c covered ih =>
    obtain ⟨before', hrest⟩ := ih c (pos + 1)
    refine ⟨before', ?_⟩
    rw [List.length_cons, List.cons_append, scanFrom, hrest, Nat.add_right_comm, Nat.add_assoc]

/-- Words with a space in front of each. -/
def spaced (words : List Text) : Text := words.flatMap (' ' :: ·)

@[simp] theorem spaced_nil : spaced [] = [] := rfl

@[simp] theorem spaced_cons (w : Text) (words : List Text) :
    spaced (w :: words) = ' ' :: (w ++ spaced words) := rfl

theorem join_cons (w : Text) (words : List Text) :
    join [' '] (w :: words) = w ++ spaced words := by
  unfold join
  induction words generalizing w with
  | nil => simp
  | cons next words ih =>
    rw [List.intercalate_cons_cons, ih, spaced_cons]
    simp

theorem not_mem_spaced {words : List Text} {c : Char} (hc : c ≠ ' ') (h : ∀ w ∈ words, c ∉ w) :
    c ∉ spaced words := by
  simp only [spaced, List.mem_flatMap, List.mem_cons, not_exists, not_and, not_or]
  exact fun w hw => ⟨hc, h w hw⟩

end Text

namespace Attributes

/-! ### Scans over words -/

section

variable {α : Type} {read : Text → Option (α × Text)}

/-- A scan does not depend on which character stands in front. -/
theorem scanFrom_behind (b b' : Char) (pos : Nat) (t : Text) :
    Text.scanFrom (behindBlank read) (some b) 0 pos t =
      Text.scanFrom (behindBlank read) (some b') 0 pos t := by
  cases t <;> rfl

/-- Nothing is read inside a word. -/
theorem scanFrom_inside {w : Text} (hw : ∀ c ∈ w, isBlank c = false) (b : Char) (pos : Nat)
    (rest : Text) : Text.scanFrom (behindBlank read) (some b) 0 pos (w ++ rest) =
      Text.scanFrom (behindBlank read) (some b) 0 (pos + w.length) rest := by
  induction w generalizing b pos with
  | nil => rfl
  | cons c w ih =>
    have hnone : behindBlank read (some b) (c :: (w ++ rest)) = none := by
      have hc : ¬isBlank c = true := by simp [hw c (List.mem_cons_self ..)]
      exact if_neg hc
    have hrest := ih (fun d hd => hw d (List.mem_cons_of_mem _ hd)) c (pos + 1)
    rw [List.cons_append, Text.scanFrom, hnone, List.length_cons, Nat.add_comm w.length,
      ← Nat.add_assoc]
    exact hrest.trans (scanFrom_behind c b _ _)

/-- A word at the start of a block is read there or not at all. -/
theorem behindBlank_first {c : Char} {w rest : Text} {value? : Option α} (hc : isBlank c = false)
    (hread : read (c :: (w ++ rest)) = value?.map (·, rest)) :
    behindBlank read none (c :: (w ++ rest)) = value?.map fun v => (w.length + 1, v) := by
  unfold behindBlank
  simp only [Option.isNone_none, if_true, hread]
  cases value? with
  | none => exact if_neg (by simp [hc])
  | some v =>
    simp only [Option.map_some, Option.some.injEq, Prod.mk.injEq, and_true, List.length_cons,
      List.length_append]
    omega

/-- A word behind a space is read with the space. -/
theorem behindBlank_space {w rest : Text} {value? : Option α}
    (hread : read (w ++ rest) = value?.map (·, rest)) (b : Char) :
    behindBlank read (some b) (' ' :: (w ++ rest)) =
      value?.map fun v => (w.length + 1, v) := by
  have hblank : isBlank ' ' = true := by decide
  unfold behindBlank
  simp only [Option.isNone_some, Bool.false_eq_true, if_false, hblank, if_true, hread]
  cases value? with
  | none => rfl
  | some v =>
    simp only [Option.map_some, Option.some.injEq, Prod.mk.injEq, and_true, List.length_cons,
      List.length_append]
    omega

/-- What is found at a character with a word behind it comes first, and the scan goes on behind the
word. -/
theorem scanFrom_word {w : Text} (hw : ∀ c ∈ w, isBlank c = false) {before : Option Char} {c : Char}
    {rest : Text} {value? : Option α}
    (hhere : behindBlank read before (c :: (w ++ rest)) =
      value?.map fun v => (w.length + 1, v)) (pos : Nat) :
    ∃ b pos', (Text.scanFrom (behindBlank read) before 0 pos (c :: (w ++ rest))).map (·.value) =
      value?.toList ++ (Text.scanFrom (behindBlank read) (some b) 0 pos' rest).map (·.value) := by
  rw [Text.scanFrom, hhere]
  cases value? with
  | none => exact ⟨c, _, congrArg _ (scanFrom_inside hw c (pos + 1) rest)⟩
  | some v =>
    obtain ⟨b, hskip⟩ := Text.scanFrom_skip (behindBlank read) c (pos + 1) w rest
    refine ⟨b, pos + 1 + w.length, ?_⟩
    simp only [Option.map_some, List.map_cons, Nat.add_sub_cancel, hskip, Option.toList_some,
      List.singleton_append]

/-- What may stand behind a word. -/
def Parted (rest : Text) : Prop := rest = [] ∨ ∃ more, rest = ' ' :: more

theorem parted_spaced (words : List Text) : Parted (Text.spaced words) := by
  cases words with
  | nil => exact .inl rfl
  | cons w words => exact .inr ⟨_, rfl⟩

/-- **A word**: it is not empty and has no blank. -/
structure IsWord (w : Text) : Prop where
  ne_nil : w ≠ []
  no_blank : ∀ c ∈ w, isBlank c = false

/-- What a reader reads at a word: all of it with some value, or nothing. -/
def ReadsWord (read : Text → Option (α × Text)) (w : Text) (value? : Option α) : Prop :=
  ∀ rest, Parted rest → read (w ++ rest) = value?.map (·, rest)

variable {ω : Type} {text : ω → Text} {value? : ω → Option α}

theorem scanFrom_spaced {words : List ω} (hwords : ∀ w ∈ words, IsWord (text w))
    (hreads : ∀ w ∈ words, ReadsWord read (text w) (value? w)) (b : Char) (pos : Nat) :
    (Text.scanFrom (behindBlank read) (some b) 0 pos (Text.spaced (words.map text))).map (·.value) =
      words.filterMap value? := by
  induction words generalizing b pos with
  | nil => rfl
  | cons w words ih =>
    obtain ⟨hword, hwords⟩ := List.forall_mem_cons.mp hwords
    obtain ⟨hread, hreads⟩ := List.forall_mem_cons.mp hreads
    have hhere := behindBlank_space (hread _ (parted_spaced (words.map text))) b
    obtain ⟨b', pos', hscan⟩ := scanFrom_word hword.no_blank hhere pos
    rw [List.map_cons, Text.spaced_cons, hscan, ih hwords hreads, List.filterMap_cons]
    cases value? w <;> rfl

/-- **A scan reads a block word by word**: what is found is what is read at the words. -/
theorem scan_words {words : List ω} (hwords : ∀ w ∈ words, IsWord (text w))
    (hreads : ∀ w ∈ words, ReadsWord read (text w) (value? w)) :
    ((Text.join [' '] (words.map text)).scan (behindBlank read)).map (·.value) =
      words.filterMap value? := by
  cases words with
  | nil => rfl
  | cons w words =>
    obtain ⟨⟨hne, hblank⟩, hwords⟩ := List.forall_mem_cons.mp hwords
    obtain ⟨hread, hreads⟩ := List.forall_mem_cons.mp hreads
    have hread := hread _ (parted_spaced (words.map text))
    obtain ⟨c, more, hcons⟩ := List.exists_cons_of_ne_nil hne
    rw [hcons] at hread hblank
    obtain ⟨hc, hmore⟩ := List.forall_mem_cons.mp hblank
    obtain ⟨b, pos, hscan⟩ := scanFrom_word hmore (behindBlank_first hc hread) 0
    rw [List.map_cons, Text.join_cons, hcons, List.cons_append, Text.scan, hscan,
      scanFrom_spaced hwords hreads, List.filterMap_cons]
    cases value? w <;> rfl

end

/-! ### Words of a block -/

/-- A word that is written in a block. -/
inductive Word where
  | label (name : Text)
  | size (isWidth : Bool) (value : Text)

namespace Word

/-- The word as it is written. -/
def text : Word → Text
  | label name => '#' :: name
  | size true value => "width=".toList ++ value
  | size false value => "height=".toList ++ value

def label? : Word → Option Text
  | label name => some name
  | size .. => none

/-- What is written behind the mark or the key. -/
def said : Word → Text
  | label name => name
  | size _ value => value

def size? : Word → Option (Bool × Text)
  | label _ => none
  | size isWidth value => some (isWidth, value)

/-- Whether the word is read back: it is not empty, and has only characters that are read. -/
def IsPlain : Word → Prop
  | label name => name ≠ [] ∧ ∀ c ∈ name, isLabelChar c = true
  | size _ value => value ≠ [] ∧ '"' ∉ value ∧ ∀ c ∈ value, isBlank c = false

end Word

variable {w : Word} {name value rest : Text}

theorem Word.not_mem_text {c : Char} (hkeys : c ∉ "#width=height=".toList) (h : c ∉ w.said) :
    c ∉ w.text := by
  have hmark : ∀ key ⊆ "#width=height=".toList, c ∉ key ++ w.said :=
    fun key hkey hmem => (List.mem_append.mp hmem).elim (fun hc => hkeys (hkey hc)) h
  cases w with
  | label name => exact hmark ['#'] (by decide)
  | size isWidth value =>
    cases isWidth with
    | true => exact hmark "width=".toList (by decide)
    | false => exact hmark "height=".toList (by decide)

theorem isBlank_of_isLabelChar {c : Char} (h : isLabelChar c = true) : isBlank c = false := by
  unfold isLabelChar at h
  simp only [Bool.and_eq_true, Bool.not_eq_true'] at h
  exact h.1

theorem Word.IsPlain.isWord (h : w.IsPlain) : IsWord w.text := by
  match w, h with
  | label name, h =>
    exact ⟨List.cons_ne_nil _ _, List.forall_mem_cons.mpr
      ⟨rfl, fun c hc => isBlank_of_isLabelChar (h.2 c hc)⟩⟩
  | size true value, h =>
    have hkey : "width=".toList.all (!isBlank ·) = true := by decide
    exact ⟨List.cons_ne_nil _ _, List.forall_mem_append.mpr ⟨by simpa using hkey, h.2.2⟩⟩
  | size false value, h =>
    have hkey : "height=".toList.all (!isBlank ·) = true := by decide
    exact ⟨List.cons_ne_nil _ _, List.forall_mem_append.mpr ⟨by simpa using hkey, h.2.2⟩⟩

/-- A class of characters ends where a word does. -/
theorem takeWhile_word {p : Char → Bool} (hspace : p ' ' = false) (hname : ∀ c ∈ name, p c = true)
    (hrest : Parted rest) :
    (name ++ rest).takeWhile p = name ∧ (name ++ rest).dropWhile p = rest := by
  rw [List.takeWhile_append_of_pos hname, List.dropWhile_append_of_pos hname]
  rcases hrest with rfl | ⟨more, rfl⟩
  · simp
  · simp [hspace]

theorem readMarked?_word {mark : Char} {inner : Char → Bool} (hspace : inner ' ' = false)
    (hne : name ≠ []) (hname : ∀ c ∈ name, inner c = true) (hrest : Parted rest) :
    readMarked? mark inner (mark :: (name ++ rest)) = some (name, rest) := by
  obtain ⟨htake, hdrop⟩ := takeWhile_word hspace hname hrest
  obtain ⟨c, more, rfl⟩ := List.exists_cons_of_ne_nil hne
  rw [readMarked?, if_pos rfl, htake, hdrop]

/-- A size without blanks and quotes is read as it is written. -/
theorem readSizeValue?_word (hvalue : (Word.size true value).IsPlain) (hrest : Parted rest) :
    readSizeValue? (Text.trimStart (value ++ rest)) = some (value, rest) := by
  obtain ⟨hne, hquote, hblank⟩ := hvalue
  have hinner : ∀ c ∈ value, (!isBlank c && decide (c ≠ '"')) = true := by
    intro c hc
    have hc' : c ≠ '"' := fun heq => hquote (heq ▸ hc)
    simp [hblank c hc, hc']
  obtain ⟨htake, hdrop⟩ := takeWhile_word (p := fun c => !isBlank c && decide (c ≠ '"'))
    (by decide) hinner hrest
  obtain ⟨c, more, rfl⟩ := List.exists_cons_of_ne_nil hne
  have hstart : Text.trimStart (c :: more ++ rest) = c :: more ++ rest :=
    List.dropWhile_cons_of_neg (by simp [hblank c (List.mem_cons_self ..)])
  have hquoted : readQuoted? '"' (c :: more ++ rest) = none :=
    if_neg (List.ne_of_not_mem_cons hquote).symm
  unfold readSizeValue?
  rw [hstart, hquoted]
  simp only
  rw [htake, hdrop]

/-- What a size is read with. -/
theorem readSize?_word {isWidth : Bool} (hplain : (Word.size isWidth value).IsPlain)
    (hrest : Parted rest) :
    readSize? ((Word.size isWidth value).text ++ rest) = some ((isWidth, value), rest) := by
  have hvalue := readSizeValue?_word hplain hrest
  cases isWidth with
  | true =>
    have hkey : readKey? "width".toList ((Word.size true value).text ++ rest) =
        some (Text.trimStart (value ++ rest)) := rfl
    unfold readSize?
    simp only [hkey, Option.bind_some, hvalue, Option.map_some]
  | false =>
    have hother : readKey? "width".toList ((Word.size false value).text ++ rest) = none := rfl
    have hkey : readKey? "height".toList ((Word.size false value).text ++ rest) =
        some (Text.trimStart (value ++ rest)) := rfl
    unfold readSize?
    simp only [hother, hkey, Option.bind_none, Option.bind_some, hvalue, Option.map_none,
      Option.map_some]

theorem readSize?_label (name : Text) : readSize? ('#' :: name) = none := rfl

/-! ### Blocks of words -/

theorem readsWord_label (h : w.IsPlain) :
    ReadsWord (readMarked? '#' isLabelChar) w.text w.label? := by
  intro rest hrest
  match w, h with
  | .label name, h => exact readMarked?_word (by decide) h.1 h.2 hrest
  | .size true value, _ => rfl
  | .size false value, _ => rfl

theorem readsWord_class (w : Word) : ReadsWord (readMarked? '.' isClassChar) w.text none := by
  intro rest _
  match w with
  | .label name => rfl
  | .size true value => rfl
  | .size false value => rfl

theorem readsWord_caption (w : Word) : ReadsWord readCaption? w.text none := by
  intro rest _
  match w with
  | .label name => rfl
  | .size true value => rfl
  | .size false value => rfl

theorem readsWord_size (h : w.IsPlain) : ReadsWord readSize? w.text w.size? := by
  intro rest hrest
  cases w with
  | label name => rfl
  | size isWidth value => exact readSize?_word h hrest

/-- Without a caption a block is read as it is. -/
theorem withoutCaptions_eq_self {block : Text} (h : (parse block).caption = none) :
    withoutCaptions block = block := by
  rw [parse_caption, Option.map_eq_none_iff, List.head?_eq_none_iff] at h
  unfold withoutCaptions
  rw [h, List.map_nil, Text.splice_nil]

/-- **A block of plain words is read back**: the first label, and the last of each size. -/
theorem parse_words {words : List Word} (h : ∀ w ∈ words, w.IsPlain) :
    parse (Text.join [' '] (words.map Word.text)) =
      (words.filterMap Word.size?).foldl (fun a size => a.setSize size.1 size.2)
        { label := (words.filterMap Word.label?).head? } := by
  have hnone : words.filterMap (fun _ => (none : Option Text)) = [] :=
    List.filterMap_eq_nil_iff.mpr fun _ _ => rfl
  have hwords : ∀ w ∈ words, IsWord w.text := fun w hw => (h w hw).isWord
  have hlabels := scan_words hwords fun w hw => readsWord_label (h w hw)
  have hclasses := scan_words hwords fun w _ => readsWord_class w
  have hcaptions := scan_words hwords fun w _ => readsWord_caption w
  have hsizes := scan_words hwords fun w hw => readsWord_size (h w hw)
  rw [hnone, List.map_eq_nil_iff] at hclasses hcaptions
  unfold parse
  simp only [hcaptions, List.map_nil, Text.splice_nil, hclasses, ← List.head?_map, hlabels]
  rw [← hsizes, List.foldl_map]
  rfl

/-! ### Blocks of figures -/

/-- The words for the sizes. -/
def sizeWords (a : Attributes) : List Word :=
  a.width.toList.map (.size true) ++ a.height.toList.map (.size false)

/-- The words of a figure's block: the label, and the sizes. -/
def figureWords (a : Attributes) : List Word := a.label.toList.map .label ++ a.sizeWords

/-- **What a figure's block may say**: a label that is one word, and sizes without quotes. -/
structure ForFigure (a : Attributes) : Prop where
  no_class : a.className = none
  no_caption : a.caption = none
  label : ∀ name, a.label = some name → name ≠ [] ∧ ∀ c ∈ name, isLabelChar c = true
  size : ∀ v, a.HasSize v → v ≠ [] ∧ '"' ∉ v

variable {a : Attributes}

theorem exists_size_of_mem (h : w ∈ a.sizeWords) :
    ∃ isWidth v, w = .size isWidth v ∧ a.HasSize v := by
  rcases List.mem_append.mp h with h | h
  · obtain ⟨v, hv, rfl⟩ := List.mem_map.mp h
    exact ⟨true, v, rfl, .inl (Option.mem_toList.mp hv)⟩
  · obtain ⟨v, hv, rfl⟩ := List.mem_map.mp h
    exact ⟨false, v, rfl, .inr (Option.mem_toList.mp hv)⟩

theorem label_or_size_of_mem (h : w ∈ a.figureWords) :
    (∃ name, w = .label name ∧ a.label = some name) ∨
      ∃ isWidth v, w = .size isWidth v ∧ a.HasSize v := by
  rcases List.mem_append.mp h with h | h
  · obtain ⟨name, hname, rfl⟩ := List.mem_map.mp h
    exact .inl ⟨name, rfl, Option.mem_toList.mp hname⟩
  · exact .inr (exists_size_of_mem h)

theorem filterMap_label_figureWords (a : Attributes) :
    a.figureWords.filterMap Word.label? = a.label.toList := by
  obtain ⟨label, -, -, width, height⟩ := a
  cases label <;> cases width <;> cases height <;> rfl

theorem filterMap_size_figureWords (a : Attributes) : a.figureWords.filterMap Word.size? =
    a.width.toList.map (true, ·) ++ a.height.toList.map (false, ·) := by
  obtain ⟨label, -, -, width, height⟩ := a
  cases label <;> cases width <;> cases height <;> rfl

/-- A size without quotes is set as it is written. -/
theorem foldl_setSize_size (a : Attributes) {isWidth : Bool} {size : Option Text}
    (h : ∀ v, size = some v → v ≠ [] ∧ '"' ∉ v) :
    (size.toList.map (isWidth, ·)).foldl (fun a size => a.setSize size.1 size.2) a =
      if isWidth then { a with width := size.or a.width }
      else { a with height := size.or a.height } := by
  cases size with
  | none => cases isWidth <;> rfl
  | some v =>
    obtain ⟨hne, hquote⟩ := h v rfl
    have hset := setSize_eq a isWidth v
    rw [unquoted_eq_self hquote, if_neg hne] at hset
    exact hset

/-- Sizes without blanks are read back. -/
theorem ForFigure.parse_words (h : a.ForFigure)
    (hblank : ∀ v, a.HasSize v → ∀ c ∈ v, isBlank c = false) :
    parse (Text.join [' '] (a.figureWords.map Word.text)) = a := by
  have hplain : ∀ w ∈ a.figureWords, w.IsPlain := by
    intro w hw
    rcases label_or_size_of_mem hw with ⟨name, rfl, hname⟩ | ⟨isWidth, v, rfl, hv⟩
    · exact h.label name hname
    · exact ⟨(h.size v hv).1, (h.size v hv).2, hblank v hv⟩
  rw [Attributes.parse_words hplain, filterMap_label_figureWords, filterMap_size_figureWords,
    List.foldl_append, foldl_setSize_size _ fun v hv => h.size v (.inl hv),
    foldl_setSize_size _ fun v hv => h.size v (.inr hv)]
  obtain ⟨label, className, caption, width, height⟩ := a
  cases h.no_class
  cases h.no_caption
  simp

/-- A size that is read where no quotes open is one word. -/
theorem HasSize.not_isBlank {front back : Text} (hfront : ∀ c ∈ front, isBlank c = false)
    (hback : '"' ∉ back) (hopen : '"' ∈ front → readSize? (front ++ back) = none)
    (hcaption : (parse (front ++ back)).caption = none)
    (h : (parse (front ++ back)).HasSize value) : ∀ c ∈ value, isBlank c = false := by
  obtain ⟨-, ⟨span, isWidth, raw⟩, hhit, rfl⟩ := exists_hit_of_parse h
  rw [withoutCaptions_eq_self hcaption] at hhit
  obtain ⟨rest, after, hread, hrest⟩ := exists_read_of_mem_scan hhit
  -- it was read at the start, where no size begins if the front has quotes, or behind the front
  have hquote : '"' ∉ rest := by
    rcases hrest with rfl | ⟨b, hb, hsuffix⟩
    · intro hmem
      rcases List.mem_append.mp hmem with hmem | hmem
      · rw [hopen hmem] at hread
        cases hread
      · exact hback hmem
    · have hb : b ∉ front := fun hmem => by simp [hfront b hmem] at hb
      have hsuffix := Text.suffix_of_suffix_append hb hsuffix
      exact fun hmem => hback (hsuffix.subset (List.mem_cons_of_mem _ hmem))
  obtain ⟨behind, hbehind, hread⟩ := readSize?_value hread
  rcases readSizeValue?_cases hread with ⟨inner, rfl, -, hbegins⟩ | ⟨hblank, hraw, -⟩
  · exact absurd (hbehind.subset (hbegins.subset (List.mem_cons_self ..))) hquote
  · rw [unquoted_eq_self hraw]
    exact hblank

/-- The label is the first word, and only it has quotes. -/
theorem ForFigure.exists_front (h : a.ForFigure) :
    ∃ front back, Text.join [' '] (a.figureWords.map Word.text) = front ++ back ∧
      (∀ c ∈ front, isBlank c = false) ∧ '"' ∉ back ∧
        ('"' ∈ front → readSize? (front ++ back) = none) := by
  have hsizes : ∀ t ∈ a.sizeWords.map Word.text, '"' ∉ t := by
    intro t ht
    obtain ⟨w, hw, rfl⟩ := List.mem_map.mp ht
    obtain ⟨isWidth, v, rfl, hv⟩ := exists_size_of_mem hw
    exact Word.not_mem_text (by decide) (h.size v hv).2
  unfold figureWords
  cases hlabel : a.label with
  | none => exact ⟨[], _, rfl, by simp, Text.not_mem_join [' '] (by decide) hsizes, by simp⟩
  | some name =>
    refine ⟨'#' :: name, Text.spaced (a.sizeWords.map Word.text), ?_, ?_,
      Text.not_mem_spaced (by decide) hsizes, fun _ => ?_⟩
    · exact Text.join_cons _ _
    · exact List.forall_mem_cons.mpr
        ⟨rfl, fun c hc => isBlank_of_isLabelChar ((h.label name hlabel).2 c hc)⟩
    · rw [List.cons_append, readSize?_label]

/-- **A figure's block is read back just when its sizes have no blanks.** -/
theorem ForFigure.parse_words_iff (h : a.ForFigure) :
    parse (Text.join [' '] (a.figureWords.map Word.text)) = a ↔
      ∀ v, a.HasSize v → ∀ c ∈ v, isBlank c = false := by
  constructor
  · intro hparse v hv
    obtain ⟨front, back, hjoin, hfront, hback, hopen⟩ := h.exists_front
    rw [hjoin] at hparse
    refine HasSize.not_isBlank hfront hback hopen ?_ ?_
    · rw [hparse, h.no_caption]
    · rw [hparse]
      exact hv
  · exact h.parse_words

end Attributes

end NotePress
