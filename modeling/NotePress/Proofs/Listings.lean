import NotePress.Proofs.Leftovers
import NotePress.Proofs.LineNumbers
import NotePress.Proofs.Occurrences

/-!
# What a listing is read as

A listing copies the body of its fence, and the label and the caption of the info string, as they
are. Whoever reads it takes what stands up to the first end marker, without the first line, and
takes values of options by their braces. So the marker in the body or at the end of a value ends the
listing early, and braces in a label or a caption open or close the value's own.

`listings_well_formed_iff` says that nothing else can go wrong: neither the quote prefix nor the
language nor what stands between the copied texts makes a marker or an open brace with them.
-/

namespace NotePress

/-! ### Braces -/

/-- How many braces are open behind a text, if `depth` are open in front of it; nothing if one is
closed that is not open. -/
def braceDepth? : (depth : Nat) → Text → Option Nat
  | depth, [] => some depth
  | depth, c :: rest =>
    if c = '\x7b' then braceDepth? (depth + 1) rest
    else if c = '\x7d' then
      match depth with
      | 0 => none
      | depth + 1 => braceDepth? depth rest
    else braceDepth? depth rest

/-- **The braces of a text are balanced.** -/
def Balanced (t : Text) : Prop := braceDepth? 0 t = some 0

instance : DecidablePred Balanced :=
  fun t => inferInstanceAs (Decidable (braceDepth? 0 t = some 0))

variable {t : Text}

@[simp] theorem braceDepth?_nil (depth : Nat) : braceDepth? depth [] = some depth := rfl

@[simp] theorem braceDepth?_open (depth : Nat) (t : Text) :
    braceDepth? depth ('\x7b' :: t) = braceDepth? (depth + 1) t := rfl

@[simp] theorem braceDepth?_close_zero (t : Text) : braceDepth? 0 ('\x7d' :: t) = none := rfl

@[simp] theorem braceDepth?_close_succ (depth : Nat) (t : Text) :
    braceDepth? (depth + 1) ('\x7d' :: t) = braceDepth? depth t := rfl

theorem braceDepth?_other {c : Char} (hopen : c ≠ '\x7b') (hclose : c ≠ '\x7d') (depth : Nat)
    (t : Text) : braceDepth? depth (c :: t) = braceDepth? depth t := by
  simp [braceDepth?, hopen, hclose]

theorem braceDepth?_append (depth : Nat) (a b : Text) :
    braceDepth? depth (a ++ b) = (braceDepth? depth a).bind (braceDepth? · b) := by
  induction a generalizing depth with
  | nil => rfl
  | cons c a ih =>
    rw [List.cons_append]
    by_cases hopen : c = '\x7b'
    · rw [hopen, braceDepth?_open, braceDepth?_open, ih]
    · by_cases hclose : c = '\x7d'
      · rw [hclose]
        cases depth with
        | zero => rfl
        | succ depth => rw [braceDepth?_close_succ, braceDepth?_close_succ, ih]
      · rw [braceDepth?_other hopen hclose, braceDepth?_other hopen hclose, ih]

/-- Without closing braces, those that are opened are added. -/
theorem braceDepth?_of_no_close (h : '\x7d' ∉ t) (depth : Nat) :
    braceDepth? depth t = some (depth + t.count '\x7b') := by
  induction t generalizing depth with
  | nil => rfl
  | cons c rest ih =>
    have hclose := (List.ne_of_not_mem_cons h).symm
    have hrest := List.not_mem_of_not_mem_cons h
    by_cases hopen : c = '\x7b'
    · rw [hopen, braceDepth?_open, ih hrest, List.count_cons_self]
      congr 1
      omega
    · rw [braceDepth?_other hopen hclose, ih hrest, List.count_cons_of_ne hopen]

/-- A brace that is closed in the end was open. -/
theorem bind_braceDepth?_close (depth : Option Nat) :
    (depth.bind (braceDepth? · ['\x7d'])) = some 0 ↔ depth = some 1 := by
  rcases depth with _ | _ | _ | depth <;> simp

/-- Options between commas are read one after the other. -/
theorem braceDepth?_join (depth : Nat) (pieces : List Text) :
    braceDepth? depth (Text.join [','] pieces) = pieces.foldlM braceDepth? depth := by
  unfold Text.join
  induction pieces generalizing depth with
  | nil => rfl
  | cons piece rest ih =>
    rw [List.foldlM_cons]
    cases rest with
    | nil => simp
    | cons next rest =>
      have hcomma : ∀ (depth : Nat) (u : Text),
          braceDepth? depth (',' :: u) = braceDepth? depth u := fun _ _ => rfl
      rw [List.intercalate_cons_cons, List.append_assoc, braceDepth?_append]
      simp only [List.singleton_append, hcomma, ih]
      rfl

/-- A value in braces is read inside one more brace. -/
theorem braceDepth?_bracedOption {key : String} (hopen : '\x7b' ∉ key.toList)
    (hclose : '\x7d' ∉ key.toList) (depth : Nat) (value : Text) :
    braceDepth? depth (bracedOption key value) =
      (braceDepth? (depth + 1) value).bind (braceDepth? · ['\x7d']) := by
  have hkey : braceDepth? depth key.toList = some depth := by
    rw [braceDepth?_of_no_close hclose, List.count_eq_zero.mpr hopen, Nat.add_zero]
  have hvalue : braceDepth? depth ('=' :: '\x7b' :: (value ++ ['\x7d'])) =
      braceDepth? (depth + 1) (value ++ ['\x7d']) := rfl
  unfold bracedOption
  rw [List.append_assoc, braceDepth?_append, hkey, Option.bind_some, List.cons_append,
    List.cons_append, hvalue, braceDepth?_append]

/-! ### Fences that become listings -/

namespace Fence

variable (f : Fence)

/-- What the attribute block of the info string says. -/
def attributes : Attributes := ((Lowering.splitInfo f.info).2.map Attributes.parse).getD {}

/-- The language tag in front of the attribute block. -/
def tag? : Option Text :=
  (Lowering.splitInfo f.info).1.words.head?.map fun w => w.dropWhile (· = '.')

/-- A fence is annotated by a language tag or an attribute block. -/
def IsAnnotated : Prop := f.tag?.isSome ∨ (Lowering.splitInfo f.info).2.isSome

/-- The language that the fence's tag or class stands for. -/
def language? : Option Text := (f.tag?.or f.attributes.className).bind listingLanguage?

/-- The label as the listing has it. -/
def label? : Option Text := f.attributes.label.map fun l => labelIn l "lst".toList

/-- The texts that the listing has in braces among its options. -/
def values : List Text := f.label?.toList ++ f.attributes.caption.toList

/-- The options of the listing. -/
def options : List Text := listingOptions f.language? f.attributes.label f.attributes.caption

/-- **The listing of a fence.** -/
def listing : Text :=
  listingOf f.quote f.language? f.attributes.label f.attributes.caption f.body

/-- **A fence holds an end marker** in its body, or at the end of a value in braces. -/
def HoldsEnd : Prop :=
  listingEnd <:+: f.body ∨ ∃ value ∈ f.values, listingEnd <:+: value ++ ['\x7d']

end Fence

/-- Options in brackets. -/
def bracketed : List Text → Text
  | [] => []
  | present => '[' :: Text.join [','] present ++ [']']

/-- The lines that a listing shows: up to the first end marker, without the first line and without
what stands in front of the marker on its line. -/
def shownLines? (listing : Text) : Option Text :=
  (Text.upTo? listingEnd listing).bind fun shown =>
    (shown.cutAt? '\n').map fun p => p.2.beforeLast '\n'

variable {f : Fence} {quote front body : Text}

/-- What stands between the first line of a listing and its end marker. -/
def listingInner (quote body : Text) : Text := if body = [] then quote else body ++ '\n' :: quote

theorem Fence.listing_eq (f : Fence) : f.listing =
    f.quote ++ listingBegin ++ bracketed f.options ++ '\n' :: listingInner f.quote f.body ++
      listingEnd := by
  unfold Fence.listing listingOf Fence.options bracketed listingInner
  cases listingOptions f.language? f.attributes.label f.attributes.caption <;>
    by_cases hbody : f.body = [] <;> simp [hbody]

/-! ### Markers in a listing -/

theorem isMarker_listingEnd : listingEnd.IsMarker where
  lead := ⟨'\\', _, rfl, by decide⟩
  line := by decide

theorem listingEnd_infix_append {a b : Text} (ha : '\\' ∉ a) :
    listingEnd <:+: a ++ b ↔ listingEnd <:+: b :=
  Text.infix_append_iff_of_not_mem ha

theorem not_infix_of_not_mem (h : '\\' ∉ t) : ¬listingEnd <:+: t :=
  fun hoccurs => h (hoccurs.subset (by decide))

/-- A value is copied with the brace behind it. -/
theorem listingEnd_infix_bracedOption {key : String} (hkey : '\\' ∉ key.toList) (value : Text) :
    listingEnd <:+: bracedOption key value ↔ listingEnd <:+: value ++ ['\x7d'] := by
  have hfront : '\\' ∉ key.toList ++ ['=', '\x7b'] := by simp [hkey]
  rw [← listingEnd_infix_append (b := value ++ ['\x7d']) hfront]
  simp [bracedOption]

/-- The option of a language. -/
def languageOption (language : Text) : Text :=
  if '[' ∈ language then bracedOption "language" language else "language=".toList ++ language

theorem languageOption_of_listingLanguage? {tag language : Text}
    (h : listingLanguage? tag = some language) :
    ¬listingEnd <:+: languageOption language ∧ Balanced (languageOption language) := by
  obtain ⟨entry, hentry, rfl⟩ := Option.map_eq_some_iff.mp h
  have hall : ∀ entry ∈ listingLanguages, '\\' ∉ languageOption entry.2.toList ∧
      braceDepth? 0 (languageOption entry.2.toList) = some 0 := by decide +kernel
  obtain ⟨hslash, hbraces⟩ := hall entry (List.mem_of_find?_eq_some hentry)
  exact ⟨not_infix_of_not_mem hslash, hbraces⟩

theorem Fence.options_eq (f : Fence) :
    f.options = (f.language?.map languageOption).toList ++
      (f.label?.map (bracedOption "label")).toList ++
      (f.attributes.caption.map (bracedOption "caption")).toList := by
  unfold Fence.options listingOptions Fence.label?
  rw [Option.map_map]
  rfl

theorem Fence.exists_listingLanguage? {language : Text} (h : f.language? = some language) :
    ∃ tag, listingLanguage? tag = some language := by
  obtain ⟨tag, -, htag⟩ := Option.bind_eq_some_iff.mp h
  exact ⟨tag, htag⟩

/-- A marker among the options is at the end of a value. -/
theorem Fence.listingEnd_infix_options (f : Fence) :
    (∃ option ∈ f.options, listingEnd <:+: option) ↔
      ∃ value ∈ f.values, listingEnd <:+: value ++ ['\x7d'] := by
  have hlanguage : ∀ option ∈ (f.language?.map languageOption).toList,
      ¬listingEnd <:+: option := by
    intro option hoption
    obtain ⟨language, hlanguage, rfl⟩ := Option.map_eq_some_iff.mp (Option.mem_toList.mp hoption)
    obtain ⟨tag, htag⟩ := Fence.exists_listingLanguage? hlanguage
    exact (languageOption_of_listingLanguage? htag).1
  have hvalue : ∀ (key : String) (value? : Option Text), '\\' ∉ key.toList →
      ((∃ option ∈ (value?.map (bracedOption key)).toList, listingEnd <:+: option) ↔
        ∃ value ∈ value?.toList, listingEnd <:+: value ++ ['\x7d']) := by
    intro key value? hkey
    cases value? <;> simp [listingEnd_infix_bracedOption hkey]
  have hnone : ¬∃ option ∈ (f.language?.map languageOption).toList, listingEnd <:+: option :=
    fun ⟨option, hoption, hoccurs⟩ => hlanguage option hoption hoccurs
  rw [Fence.options_eq, Fence.values]
  simp only [List.mem_append, or_and_right, exists_or]
  rw [hvalue "label" f.label? (by decide), hvalue "caption" f.attributes.caption (by decide)]
  simp only [hnone, false_or]

theorem listingEnd_infix_bracketed (options : List Text) :
    listingEnd <:+: bracketed options ↔ ∃ option ∈ options, listingEnd <:+: option := by
  have hcomma : ',' ∉ listingEnd := by decide
  have hclose : ']' ∉ listingEnd := by decide
  have hopen : '\\' ∉ ['['] := by decide
  have hne : listingEnd ≠ [] := by decide
  cases options with
  | nil => simp [bracketed, hne]
  | cons first rest =>
    have hinner := Text.infix_join_iff hcomma hne (first :: rest)
    have hend : listingEnd <:+: Text.join [','] (first :: rest) ++ [']'] ↔
        listingEnd <:+: Text.join [','] (first :: rest) := by
      rw [Text.infix_append_cons_iff hclose]
      exact or_iff_left (by decide)
    have hform : bracketed (first :: rest) =
        ['['] ++ (Text.join [','] (first :: rest) ++ [']']) := rfl
    rw [hform, listingEnd_infix_append hopen, hend, hinner]

theorem listingEnd_infix_begin (t : Text) :
    listingEnd <:+: listingBegin ++ t ↔ listingEnd <:+: t := by
  have hbegin : listingBegin = '\\' :: "begin\x7blstlisting\x7d".toList := rfl
  have hname : '\\' ∉ "begin\x7blstlisting\x7d".toList := by decide
  rw [hbegin, List.cons_append, List.infix_cons_iff, listingEnd_infix_append hname]
  refine or_iff_right fun hbegins => ?_
  have hsecond := (List.cons_prefix_cons.mp hbegins).2
  exact absurd (List.cons_prefix_cons.mp hsecond).1 (by decide)

theorem listingEnd_infix_inner (hquote : '\\' ∉ quote) (body : Text) :
    listingEnd <:+: listingInner quote body ↔ listingEnd <:+: body := by
  have hbreak : '\n' ∉ listingEnd := by decide
  unfold listingInner
  split
  · rename_i hnil
    rw [hnil]
    exact iff_of_false (not_infix_of_not_mem hquote) (by decide)
  · rw [Text.infix_append_cons_iff hbreak]
    exact or_iff_left (not_infix_of_not_mem hquote)

/-- **The marker stands early in a listing** just when the fence holds one. -/
theorem Fence.holdsEnd_iff (hquote : '\\' ∉ f.quote) :
    listingEnd <:+: f.quote ++ listingBegin ++ bracketed f.options ++
      '\n' :: listingInner f.quote f.body ↔ f.HoldsEnd := by
  have hbreak : '\n' ∉ listingEnd := by decide
  rw [Text.infix_append_cons_iff hbreak, List.append_assoc, listingEnd_infix_append hquote,
    listingEnd_infix_begin, listingEnd_infix_bracketed, f.listingEnd_infix_options,
    listingEnd_infix_inner hquote, or_comm]
  rfl

/-! ### Reading a listing -/

theorem beforeLast_listingInner (hquote : '\n' ∉ quote) (body : Text) :
    (listingInner quote body).beforeLast '\n' = body := by
  unfold listingInner
  split
  · rename_i hnil
    rw [hnil, Text.beforeLast, Text.cutAtLast?_eq_none hquote]
  · exact Text.beforeLast_append hquote

/-- What is shown is the body unless a marker stands early. -/
theorem shownLines?_eq_iff (hfront : '\n' ∉ front) (hbreak : '\n' ∉ quote) (hslash : '\\' ∉ quote) :
    shownLines? (front ++ '\n' :: listingInner quote body ++ listingEnd) = some body ↔
      ¬listingEnd <:+: front ++ '\n' :: listingInner quote body := by
  unfold shownLines?
  rcases isMarker_listingEnd.upTo?_append (front ++ '\n' :: listingInner quote body) with
    ⟨hnot, hread⟩ | ⟨shown, back, hsplit, hread⟩
  · rw [hread, Option.bind_some, Text.cutAt?_append hfront, Option.map_some,
      beforeLast_listingInner hbreak]
    exact iff_of_true rfl hnot
  · have hoccurs : listingEnd <:+: front ++ '\n' :: listingInner quote body :=
      ⟨shown, back, by rw [hsplit, List.append_assoc]⟩
    refine iff_of_false (fun hshown => ?_) (not_not_intro hoccurs)
    rw [hread, Option.bind_some] at hshown
    obtain ⟨⟨first, lines⟩, hcut, hlast⟩ := Option.map_eq_some_iff.mp hshown
    have hlast : lines.beforeLast '\n' = body := hlast
    rw [Text.eq_of_cutAt? hcut, List.append_assoc, List.cons_append] at hsplit
    obtain ⟨-, -, hinner⟩ := eq_of_first (P := (· = '\n')) (fun _ hc heq => hfront (heq ▸ hc))
      (fun _ hc heq => Text.not_mem_of_cutAt? hcut (heq ▸ hc)) rfl rfl hsplit
    -- then the marker would stand in the quote prefix
    have hquote : ∀ lead : Text, quote ≠ lead ++ (listingEnd ++ back) := by
      rintro lead rfl
      have hmem : '\\' ∈ listingEnd := by decide
      exact hslash (List.mem_append_right _ (List.mem_append_left _ hmem))
    unfold listingInner at hinner
    split at hinner
    · exact hquote lines hinner
    · rename_i hne
      unfold Text.beforeLast at hlast
      split at hlast
      · rename_i before behind hcutLast
        obtain ⟨hlines, -⟩ := Text.of_cutAtLast? hcutLast
        rw [hlines, hlast, List.append_assoc, List.append_cancel_left_eq] at hinner
        exact hquote behind (List.cons.inj hinner).2
      · exact hne hlast.symm

/-! ### Braces in a listing -/

/-- A label opens braces and closes none. -/
theorem Fence.not_mem_label {label : Text} (h : f.label? = some label) : '\x7d' ∉ label := by
  obtain ⟨read, hread, rfl⟩ := Option.map_eq_some_iff.mp h
  unfold Fence.attributes at hread
  cases hblock : (Lowering.splitInfo f.info).2 with
  | none =>
    rw [hblock] at hread
    cases hread
  | some block =>
    rw [hblock] at hread
    obtain ⟨-, hchars, -⟩ := Attributes.label_of_parse hread
    intro hclose
    exact absurd (Attributes.isLabelChar_of_mem_labelIn (by decide) hchars hclose) (by decide)

/-- The option of a language leaves no brace open. -/
theorem Fence.braceDepth?_language (f : Fence) :
    (f.language?.map languageOption).toList.foldlM braceDepth? 0 = some 0 := by
  cases hlanguage : f.language? with
  | none => rfl
  | some language =>
    obtain ⟨tag, htag⟩ := Fence.exists_listingLanguage? hlanguage
    have hbalanced : braceDepth? 0 (languageOption language) = some 0 :=
      (languageOption_of_listingLanguage? htag).2
    simpa using hbalanced

/-- The option of a label leaves open what the label opens. -/
theorem Fence.braceDepth?_label (f : Fence) :
    (f.label?.map (bracedOption "label")).toList.foldlM braceDepth? 0 =
      some ((f.label?.getD []).count '\x7b') := by
  cases hlabel : f.label? with
  | none => rfl
  | some label =>
    have hoption : braceDepth? 0 (bracedOption "label" label) = some (label.count '\x7b') := by
      rw [braceDepth?_bracedOption (by decide) (by decide),
        braceDepth?_of_no_close (f.not_mem_label hlabel), Nat.add_comm]
      rfl
    simpa using hoption

/-- The option of a caption closes all braces when the caption leaves its own one open. -/
theorem braceDepth?_caption (caption : Option Text) (depth : Nat) :
    (caption.map (bracedOption "caption")).toList.foldlM braceDepth? depth = some 0 ↔
      braceDepth? (depth + 1) (caption.getD []) = some 1 := by
  cases caption with
  | none => simp
  | some caption =>
    have hoption : braceDepth? depth (bracedOption "caption" caption) =
        (braceDepth? (depth + 1) caption).bind (braceDepth? · ['\x7d']) :=
      braceDepth?_bracedOption (by decide) (by decide) depth caption
    simpa [hoption] using bind_braceDepth?_close (braceDepth? (depth + 1) caption)

/-- The options are balanced when the caption closes what the label opens. -/
theorem Fence.balanced_options_iff (f : Fence) :
    Balanced (Text.join [','] f.options) ↔
      braceDepth? ((f.label?.getD []).count '\x7b' + 1) (f.attributes.caption.getD []) =
        some 1 := by
  unfold Balanced
  rw [braceDepth?_join, Fence.options_eq, List.foldlM_append, List.foldlM_append,
    f.braceDepth?_language]
  show ((f.label?.map (bracedOption "label")).toList.foldlM braceDepth? 0).bind _ = some 0 ↔ _
  rw [f.braceDepth?_label]
  exact braceDepth?_caption _ _

/-! ### Listings that are put into a text -/

namespace Lowering

variable {l : Lowering} {c : Cache} {source : DocumentId} {visited : List DocumentId}

/-- An annotated fence becomes a listing. -/
theorem constructOfFence_of_annotated (hlistings : l.listings = true) (h : f.IsAnnotated) :
    l.constructOfFence f =
      some (.listing f.quote f.language? f.attributes.label f.attributes.caption f.body) := by
  have hplain : ¬(f.tag?.isNone && (splitInfo f.info).2.isNone) = true := by
    rw [Bool.and_eq_true, Option.isNone_iff_eq_none, Option.isNone_iff_eq_none]
    rintro ⟨htag, hblock⟩
    rcases h with h | h
    · rw [htag] at h
      cases h
    · rw [hblock] at h
      cases h
  unfold constructOfFence
  rw [hlistings]
  exact if_neg hplain

theorem listing_mem_fills (hlistings : l.listings = true) (hf : f ∈ t.fences)
    (h : f.IsAnnotated) : (f.span, f.listing) ∈ l.fills c t source visited := by
  have hconstruct := constructOfFence_of_annotated hlistings h
  have hasks : (l.fenceSite f).asks = none := by
    unfold fenceSite
    rw [hconstruct]
    rfl
  exact mem_fills (fenceSite_mem_sitesIn (l.seenThrough c) source hf) hconstruct hasks

end Lowering

/-- **A listing is well formed when its fence lets it.** Every annotated fence of a text is replaced
by its listing, whatever is woven around it. The listing has its end marker once, at its end, and
shows the body of the fence, just when the fence holds no end marker; and the braces of its options
are balanced just when the caption closes what the label opens. -/
theorem listings_well_formed_iff {l : Lowering} {c : Cache} {source : DocumentId}
    {visited : List DocumentId} (hlistings : l.listings = true)
    (hends : (l.lowerer.weave? t source visited c).isSome) (hf : f ∈ t.fences)
    (h : f.IsAnnotated) :
    ((f.span, f.listing) ∈ l.fills c t source visited ∧
        (l.lowerer.weave t source visited c).1.text.HasAt
          (t.landing (l.fills c t source visited) f.span.start) f.listing) ∧
      (∃ back, f.listing = f.quote ++ listingBegin ++ bracketed f.options ++ '\n' :: back) ∧
      (listingEnd.StandsOnce f.listing ↔ ¬f.HoldsEnd) ∧
      (shownLines? f.listing = some f.body ↔ ¬f.HoldsEnd) ∧
      (Balanced (Text.join [','] f.options) ↔
        braceDepth? ((f.label?.getD []).count '\x7b' + 1) (f.attributes.caption.getD []) =
          some 1) := by
  have hmem : (f.span, f.listing) ∈ l.fills c t source visited :=
    Lowering.listing_mem_fills hlistings hf h
  have hslash : '\\' ∉ f.quote := fun hc =>
    absurd (Fence.isQuoteChar_of_mem_quote hf _ hc) (by decide)
  have hbreak : '\n' ∉ f.quote := (Fence.no_break hf).1
  have hfront : '\n' ∉ f.quote ++ listingBegin ++ bracketed f.options := by
    obtain ⟨hlanguage, hlabel, hcaption⟩ := Lowering.constructOfFence_no_break (Fence.no_break hf).2
      (Lowering.constructOfFence_of_annotated hlistings h)
    exact Lowering.not_mem_listingLead hbreak hlanguage hlabel hcaption
  refine ⟨⟨hmem, Lowering.hasAt_of_mem_fills hends hmem⟩, ?_, ?_, ?_, f.balanced_options_iff⟩
  · exact ⟨listingInner f.quote f.body ++ listingEnd, by rw [f.listing_eq, List.append_assoc]; rfl⟩
  · rw [f.listing_eq, isMarker_listingEnd.standsOnce_iff, Fence.holdsEnd_iff hslash]
  · rw [f.listing_eq, shownLines?_eq_iff hfront hbreak hslash, Fence.holdsEnd_iff hslash]

/-- Lowering without documents. -/
def lonelyLowering : Lowering :=
  Lowering.of (MemoryVault.mk [] []).toCollection { scaleImages := false } true

/-- A fence with a label and a caption. -/
def labelledText : Text :=
  "\x60\x60\x60py \x7b#lst:a caption=\"x\"\x7d\nprint(1)\n\x60\x60\x60".toList

/-- It is read as it is written. -/
def labelledFence : Fence :=
  ⟨⟨0, 39⟩, [], "\x60\x60\x60".toList, "py \x7b#lst:a caption=\"x\"\x7d".toList,
    "print(1)".toList⟩

theorem listings_well_formed_iff_labelled :
    labelledFence ∈ labelledText.fences ∧ labelledFence.IsAnnotated ∧
      listingEnd.StandsOnce labelledFence.listing ∧
      shownLines? labelledFence.listing = some labelledFence.body ∧
      Balanced (Text.join [','] labelledFence.options) := by
  have hmem : labelledFence ∈ labelledText.fences := by decide +kernel
  have hannotated : labelledFence.IsAnnotated := .inl (by decide +kernel)
  have hholds : ¬labelledFence.HoldsEnd := by
    rintro (hbody | ⟨value, hvalue, hend⟩)
    · exact absurd hbody (by decide +kernel)
    · have hall : ∀ value ∈ labelledFence.values, ¬listingEnd <:+: value ++ ['\x7d'] := by
        decide +kernel
      exact hall value hvalue hend
  obtain ⟨-, -, honce, hshown, hbraces⟩ := listings_well_formed_iff (l := lonelyLowering) rfl
    (Lowering.passEnds_of_vault (MemoryVault.mk [] []) _ _ .empty (.ofPath "main.md".toList) _) hmem
    hannotated
  exact ⟨hmem, hannotated, honce.mpr hholds, hshown.mpr hholds, hbraces.mpr (by decide +kernel)⟩

/-- A fence that holds an end marker, with a brace in its caption. -/
def markedText : Text :=
  "\x60\x60\x60tex \x7bcaption=\"a\x7b\"\x7d\n\\end\x7blstlisting\x7d\n\x60\x60\x60".toList

/-- What its listing has in front of the last end marker. -/
def markedLead : Text :=
  "\\begin\x7blstlisting\x7d[language=TeX,caption=\x7ba\x7b\x7d]\n".toList ++ listingEnd ++ ['\n']

/-- **A listing may end early** and leave a brace open. -/
theorem listing_ends_early :
    markedText.fences.map (·.body) = [listingEnd] ∧
      lonelyLowering.passText .empty (.ofPath "main.md".toList) markedText =
        markedLead ++ listingEnd ∧
      ¬listingEnd.StandsOnce
        (lonelyLowering.passText .empty (.ofPath "main.md".toList) markedText) ∧
      shownLines? (lonelyLowering.passText .empty (.ofPath "main.md".toList) markedText) =
        some [] ∧
      ¬Balanced "language=TeX,caption=\x7ba\x7b\x7d".toList := by
  have htext : lonelyLowering.passText .empty (.ofPath "main.md".toList) markedText =
      markedLead ++ listingEnd :=
    Lowering.passText_of_vault (MemoryVault.mk [] []) _ _ (by decide +kernel) (by decide +kernel)
  refine ⟨by decide +kernel, htext, ?_, ?_, by decide⟩
  · rw [htext, isMarker_listingEnd.standsOnce_iff]
    exact not_not_intro (by decide +kernel)
  · rw [htext]
    decide +kernel

end NotePress
