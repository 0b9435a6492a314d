import NotePress.Proofs.BlockWords
import NotePress.Proofs.Digits
import NotePress.Proofs.FenceBodies
import NotePress.Proofs.Leftovers

/-!
# The attribute block of a figure

An embed of a picture becomes an image with an attribute block: its label in the namespace of
figures, and its sizes, or what its reference or the profile gives for them
(`Lowering.figureAttributes`). Read again, the block of the image says the same, unless a size of
the embed's block has a blank: `figure_read_back_iff`.
-/

namespace NotePress

/-- The attribute block at the end of a directive. -/
def directiveBlock? (directive : Text) : Option Text :=
  (Text.dropEnding? ['\x7d'] directive).map (Text.afterLast '\x7b')

/-- What the attribute block of a directive says. -/
def directiveAttributes (directive : Text) : Attributes :=
  ((directiveBlock? directive).map Attributes.parse).getD {}

/-- The entries of a block are read from where it is written. -/
theorem directiveAttributes_append {entries : List (Option Text)}
    (h : ∀ entry ∈ entries.filterMap id, '\x7b' ∉ entry) (front : Text) :
    directiveAttributes (front ++ ')' :: bracedEntries entries) =
      Attributes.parse (Text.join [' '] (entries.filterMap id)) := by
  unfold directiveAttributes directiveBlock? bracedEntries
  cases hentries : entries.filterMap id with
  | nil =>
    have hnone : Text.dropEnding? ['\x7d'] (front ++ [')']) = none := by
      rw [Option.eq_none_iff_forall_ne_some]
      intro rest hrest
      have hends : rest ++ ['\x7d'] = front ++ [')'] :=
        List.isSuffixOf?_eq_some_iff_append_eq.mp hrest
      exact absurd (List.append_inj_right' hends rfl) (by decide)
    simp only [hnone]
    rfl
  | cons first rest =>
    rw [hentries] at h
    have hjoin : '\x7b' ∉ Text.join [' '] (first :: rest) := Text.not_mem_join [' '] (by decide) h
    have hends : Text.dropEnding? ['\x7d']
        (front ++ ')' :: ('\x7b' :: Text.join [' '] (first :: rest) ++ ['\x7d'])) =
          some (front ++ [')'] ++ '\x7b' :: Text.join [' '] (first :: rest)) :=
      List.isSuffixOf?_eq_some_iff_append_eq.mpr (by simp)
    simp only [hends, Option.map_some, Text.afterLast_append hjoin, Option.getD_some]

/-! ### Words of an image -/

theorem filterMap_figureEntries (a : Attributes) :
    [a.label.map ('#' :: ·), attributeEntry "width" a.width,
      attributeEntry "height" a.height].filterMap id =
        a.figureWords.map Attributes.Word.text := by
  obtain ⟨label, -, -, width, height⟩ := a
  cases label <;> cases width <;> cases height <;> rfl

/-- The block of an image is read as the words of what it says. -/
theorem directiveAttributes_figureOf {a : Attributes} {label : Option Text}
    (hlabel : label.map (labelIn · "fig".toList) = a.label)
    (h : ∀ w ∈ a.figureWords, '\x7b' ∉ w.said) (target : DocumentId) (caption : Option Text) :
    directiveAttributes (figureOf target label caption a.width a.height) =
      Attributes.parse (Text.join [' '] (a.figureWords.map Attributes.Word.text)) := by
  have hentries : ∀ entry ∈ [a.label.map ('#' :: ·), attributeEntry "width" a.width,
      attributeEntry "height" a.height].filterMap id, '\x7b' ∉ entry := by
    rw [filterMap_figureEntries]
    intro entry hentry
    obtain ⟨w, hw, rfl⟩ := List.mem_map.mp hentry
    exact Attributes.Word.not_mem_text (by decide) (h w hw)
  unfold figureOf
  simp only [hlabel]
  rw [List.append_assoc _ [')'], List.singleton_append, directiveAttributes_append hentries,
    filterMap_figureEntries]

/-! ### Sizes that are not written in a block -/

/-- **A measure** is not empty and has only digits and the letters of its unit. -/
def IsMeasure (v : Text) : Prop := v ≠ [] ∧ ∀ c ∈ v, c.isDigit = true ∨ c ∈ "px%".toList

variable {v : Text}

theorem IsMeasure.no_quote (h : IsMeasure v) : '"' ∉ v :=
  fun hquote => (h.2 _ hquote).elim (by decide) (by decide)

theorem IsMeasure.no_brace (h : IsMeasure v) : '\x7b' ∉ v :=
  fun hbrace => (h.2 _ hbrace).elim (by decide) (by decide)

theorem IsMeasure.no_blank (h : IsMeasure v) : ∀ c ∈ v, isBlank c = false := by
  intro c hc
  have hunit : "px%".toList.all (!isBlank ·) = true := by decide
  rcases h.2 c hc with hdigit | hmem
  · exact Text.isBlank_of_isDigit hdigit
  · simpa using List.all_eq_true.mp hunit c hmem

theorem isMeasure_ofNat (n : Nat) {unit : Text} (hunit : unit ⊆ "px%".toList) :
    IsMeasure (Text.ofNat n ++ unit) :=
  ⟨List.append_ne_nil_of_left_ne_nil (Text.ofNat_ne_nil n) _, fun _ hc =>
    (List.mem_append.mp hc).imp Text.isDigit_of_mem_ofNat fun hc => hunit hc⟩

theorem Lowering.isMeasure_pixels (n : Nat) : IsMeasure (pixels n) :=
  isMeasure_ofNat n (by decide)

theorem Profile.isMeasure_shownWidth {p : Profile} (h : p.shownWidth = some v) : IsMeasure v := by
  unfold shownWidth at h
  split at h
  · cases h
    exact isMeasure_ofNat _ (by decide)
  · cases h

/-! ### What an embed asks for -/

/-- What is between braces has none. -/
theorem not_mem_of_readBraces? {t inner after : Text} (h : readBraces? t = some (inner, after)) :
    '\x7b' ∉ inner := by
  unfold readBraces? at h
  split at h
  · simp only at h
    split at h
    · cases h
      exact fun hmem => by simpa using List.mem_takeWhile_imp hmem
    · cases h
  · cases h

theorem not_mem_block {t : Text} {h : Hit (Embed × Option Text)}
    (hmem : h ∈ t.scan recogniseAttributedEmbed) : ∀ block ∈ h.value.2, '\x7b' ∉ block := by
  obtain ⟨n, hfound, -⟩ := Text.recognised_of_mem_scan hmem
  obtain ⟨⟨inner, after⟩, -, he⟩ := Option.map_eq_some_iff.mp hfound
  simp only at he
  split at he
  · rename_i hbraces
    obtain ⟨-, he⟩ := Prod.mk.inj he
    rw [← he]
    rintro _ ⟨⟩
    exact not_mem_of_readBraces? hbraces
  · obtain ⟨-, he⟩ := Prod.mk.inj he
    rw [← he]
    exact nofun

/-- What the attribute block behind an embed says. -/
def embedAttributes (block : Option Text) : Attributes := (block.map Attributes.parse).getD {}

section

variable {block : Option Text}

/-- A label of a block is one word. -/
theorem label_of_embedAttributes (hblock : ∀ b ∈ block, '\x7b' ∉ b) {name : Text}
    (h : (embedAttributes block).label = some name) :
    name ≠ [] ∧ (∀ c ∈ name, Attributes.isLabelChar c = true) ∧ '\x7b' ∉ name := by
  cases block with
  | none => cases h
  | some b =>
    obtain ⟨hne, hchars, hsubset⟩ := Attributes.label_of_parse h
    refine ⟨hne, hchars, fun hmem => ?_⟩
    exact (Attributes.mem_withoutCaptions (hsubset hmem)).elim (hblock b rfl) (by decide)

/-- A size of a block is not empty and has no quotes. -/
theorem size_of_embedAttributes (hblock : ∀ b ∈ block, '\x7b' ∉ b)
    (h : (embedAttributes block).HasSize v) : v ≠ [] ∧ '"' ∉ v ∧ '\x7b' ∉ v := by
  cases block with
  | none => rcases h with h | h <;> cases h
  | some b =>
    obtain ⟨hne, hquote, hsubset⟩ := Attributes.size_of_parse h
    refine ⟨hne, hquote, fun hmem => ?_⟩
    exact (Attributes.mem_withoutCaptions (hsubset hmem)).elim (hblock b rfl) (by decide)

theorem label_bind_unlessBlank? (hblock : ∀ b ∈ block, '\x7b' ∉ b) :
    (embedAttributes block).label.bind Text.unlessBlank? = (embedAttributes block).label := by
  cases hlabel : (embedAttributes block).label with
  | none => rfl
  | some name =>
    obtain ⟨hne, hchars, -⟩ := label_of_embedAttributes hblock hlabel
    have hblank : ∀ c ∈ name, isBlank c = false := fun c hc =>
      Attributes.isBlank_of_isLabelChar (hchars c hc)
    refine Text.unlessBlank?_of_trim (Text.trim_eq_self (fun c hc => ?_) fun c hc => ?_) hne
    · exact hblank c (List.mem_of_mem_head? hc)
    · exact hblank c (List.mem_of_getLast? hc)

end

namespace Lowering

variable {l : Lowering} {c : Cache} {source target : DocumentId} {visited : List DocumentId}
  {t : Text} {block : Option Text} {reference : Reference}

/-- **What an embed of a picture asks for**: a label in the namespace of figures, and sizes, else
those of the reference, else the width of the profile. -/
def figureAttributes (l : Lowering) (block : Option Text) (reference : Reference) : Attributes where
  label := (embedAttributes block).label.map (labelIn · "fig".toList)
  width := ((embedAttributes block).width.or (reference.size.map fun s => pixels s.width)).or
    l.profile.shownWidth
  height := (embedAttributes block).height.or ((reference.size.bind (·.height)).map pixels)

/-- A size that is asked for is one of the block or a measure. -/
theorem size_of_figureAttributes (h : (l.figureAttributes block reference).HasSize v) :
    (embedAttributes block).HasSize v ∨ IsMeasure v := by
  unfold Attributes.HasSize figureAttributes at h
  simp only [Option.or_eq_some_iff] at h
  rcases h with ((hblock | ⟨-, hsize⟩) | ⟨-, hwidth⟩) | hblock | ⟨-, hsize⟩
  · exact .inl (.inl hblock)
  · obtain ⟨size, -, rfl⟩ := Option.map_eq_some_iff.mp hsize
    exact .inr (isMeasure_pixels _)
  · exact .inr (Profile.isMeasure_shownWidth hwidth)
  · exact .inl (.inr hblock)
  · obtain ⟨n, -, rfl⟩ := Option.map_eq_some_iff.mp hsize
    exact .inr (isMeasure_pixels n)

theorem size_of_block (h : (embedAttributes block).HasSize v) :
    (l.figureAttributes block reference).HasSize v := by
  unfold Attributes.HasSize figureAttributes
  rcases h with h | h
  · exact .inl (by simp [h])
  · exact .inr (by simp [h])

theorem forFigure_figureAttributes (l : Lowering) (reference : Reference)
    (hblock : ∀ b ∈ block, '\x7b' ∉ b) : (l.figureAttributes block reference).ForFigure where
  no_class := rfl
  no_caption := rfl
  label name hname := by
    obtain ⟨read, hread, rfl⟩ := Option.map_eq_some_iff.mp hname
    have hchars := (label_of_embedAttributes hblock hread).2.1
    exact ⟨Attributes.labelIn_ne_nil _ _, fun c hc =>
      Attributes.isLabelChar_of_mem_labelIn (by decide) hchars hc⟩
  size v hv := by
    rcases size_of_figureAttributes hv with hv | hv
    · obtain ⟨hne, hquote, -⟩ := size_of_embedAttributes hblock hv
      exact ⟨hne, hquote⟩
    · exact ⟨hv.1, hv.no_quote⟩

/-- The words of an image have no braces. -/
theorem not_mem_figureWords (hblock : ∀ b ∈ block, '\x7b' ∉ b) {w : Attributes.Word}
    (hw : w ∈ (l.figureAttributes block reference).figureWords) : '\x7b' ∉ w.said := by
  rcases Attributes.label_or_size_of_mem hw with ⟨_, rfl, hlabel⟩ | ⟨isWidth, v, rfl, hv⟩
  · obtain ⟨name, hname, rfl⟩ := Option.map_eq_some_iff.mp hlabel
    have hbrace := (label_of_embedAttributes hblock hname).2.2
    intro hmem
    rcases Attributes.mem_labelIn hmem with hmem | hmem | hmem
    · exact absurd hmem (by decide)
    · exact absurd hmem (by decide)
    · exact hbrace hmem
  · rcases size_of_figureAttributes hv with hv | hv
    · exact (size_of_embedAttributes hblock hv).2.2
    · exact hv.no_brace

/-- What an unquoted embed of a picture is rendered as. -/
theorem render_embedConstruct {embed : Embed} (hquote : embed.quote = [])
    (htarget : target.isNote = false) (hblock : ∀ b ∈ block, '\x7b' ∉ b) :
    ∃ caption, l.render (embedConstruct embed block reference target) =
      figureOf target (embedAttributes block).label caption
        (l.figureAttributes block reference).width
        (l.figureAttributes block reference).height := by
  refine ⟨((embedAttributes block).caption.bind Text.unlessBlank?).or
    (reference.shown.bind Text.unlessBlank?), ?_⟩
  have hlabel := label_bind_unlessBlank? hblock
  unfold embedAttributes at hlabel
  unfold embedConstruct
  simp only [htarget, Bool.false_eq_true, if_false, hlabel, render, hquote, if_true]
  rfl

/-- **The block of an image says what the embed asks for** just when no size of the embed's block
has a blank. -/
theorem directiveAttributes_embed_iff {embed : Embed} (hquote : embed.quote = [])
    (htarget : target.isNote = false) (hblock : ∀ b ∈ block, '\x7b' ∉ b) :
    directiveAttributes (l.render (embedConstruct embed block reference target)) =
        l.figureAttributes block reference ↔
      ∀ v, (embedAttributes block).HasSize v → ∀ c ∈ v, isBlank c = false := by
  obtain ⟨caption, hrender⟩ := render_embedConstruct hquote htarget hblock
  rw [hrender, directiveAttributes_figureOf rfl (fun w => not_mem_figureWords hblock) target,
    (forFigure_figureAttributes l reference hblock).parse_words_iff]
  constructor
  · exact fun h v hv => h v (size_of_block hv)
  · intro h v hv
    rcases size_of_figureAttributes hv with hv | hv
    · exact h v hv
    · exact hv.no_blank

end Lowering

/-- **When an image reads back as its embed.** An unquoted embed of a picture that is lowered, with
or without an attribute block, is replaced by an image. The image's own attribute block says what
the embed asks for, and nothing else, just when no size of the embed's block has a blank. -/
theorem figure_read_back_iff {l : Lowering} {c : Cache} {source target : DocumentId}
    {visited : List DocumentId} {t : Text} {h : Hit (Embed × Option Text)} {reference : Reference}
    (hends : (l.lowerer.weave? t source visited c).isSome)
    (hhit : h ∈ t.scan recogniseAttributedEmbed) (hquote : h.value.1.quote = [])
    (hreference : Reference.parse? h.value.1.inner = some reference)
    (hmeans : (l.seenThrough c).resolver.meaning reference source = some target)
    (htarget : target.isNote = false)
    (hsite : ⟨h.span, (l.seenThrough c).embedMeant source h.value⟩ ∈
      (l.seenThrough c).sitesIn t source) :
    let image := l.render (Lowering.embedConstruct h.value.1 h.value.2 reference target)
    ((h.span, image) ∈ l.fills c t source visited ∧
        (l.lowerer.weave t source visited c).1.text.HasAt
          (t.landing (l.fills c t source visited) h.span.start) image) ∧
      (directiveAttributes image = l.figureAttributes h.value.2 reference ↔
        ∀ v, (embedAttributes h.value.2).HasSize v → ∀ c ∈ v, isBlank c = false) := by
  have hmeant : (l.seenThrough c).embedMeant source h.value =
      some (Lowering.embedConstruct h.value.1 h.value.2 reference target) := by
    unfold Lowering.embedMeant
    rw [hreference, Option.bind_some, hmeans, Option.map_some]
  have hasks : (⟨h.span, (l.seenThrough c).embedMeant source h.value⟩ : LoweringSite).asks =
      none := by
    rw [hmeant]
    unfold Lowering.embedConstruct
    simp only [htarget, Bool.false_eq_true, if_false]
    rfl
  have hmem : (h.span, l.render (Lowering.embedConstruct h.value.1 h.value.2 reference target)) ∈
      l.fills c t source visited := Lowering.mem_fills hsite hmeant hasks
  exact ⟨⟨hmem, Lowering.hasAt_of_mem_fills hends hmem⟩,
    Lowering.directiveAttributes_embed_iff hquote htarget (not_mem_block hhit)⟩

/-- An embed of a picture with a label and sizes. -/
def sizedText : Text := "![[plot.png|300x200]]\x7b#a width=\"50%\"\x7d".toList

/-- It is read as it is written. -/
def sizedEmbed : Hit (Embed × Option Text) :=
  ⟨⟨0, 37⟩, ⟨[], "plot.png|300x200".toList⟩, some "#a width=\"50%\"".toList⟩

/-- The reference of the embed. -/
def sizedReference : Reference := ⟨"plot.png".toList, none, none, none, some ⟨300, some 200⟩⟩

theorem figure_read_back_iff_sized :
    sizedEmbed ∈ sizedText.scan recogniseAttributedEmbed ∧
      Reference.parse? sizedEmbed.value.1.inner = some sizedReference ∧
      directiveAttributes (plotLowering.render (Lowering.embedConstruct sizedEmbed.value.1
        sizedEmbed.value.2 sizedReference (.ofPath "plot.png".toList))) =
        { label := some "fig:a".toList, width := some "50%".toList,
          height := some "200px".toList } := by
  have hmem : sizedEmbed ∈ sizedText.scan recogniseAttributedEmbed := by decide +kernel
  have hreference : Reference.parse? sizedEmbed.value.1.inner = some sizedReference := by
    decide +kernel
  have hmeans : (plotLowering.seenThrough .empty).resolver.meaning sizedReference
      (.ofPath "main.md".toList) = some (.ofPath "plot.png".toList) := by
    rw [Lowering.seenThrough_empty]
    decide +kernel
  have hsite : ⟨sizedEmbed.span, (plotLowering.seenThrough .empty).embedMeant
      (.ofPath "main.md".toList) sizedEmbed.value⟩ ∈
        (plotLowering.seenThrough .empty).sitesIn sizedText (.ofPath "main.md".toList) := by
    rw [Lowering.seenThrough_empty]
    decide +kernel
  have hsizes : ∀ v, (embedAttributes sizedEmbed.value.2).HasSize v →
      ∀ c ∈ v, isBlank c = false := by
    have hwidth : (embedAttributes sizedEmbed.value.2).width = some "50%".toList := by
      decide +kernel
    have hheight : (embedAttributes sizedEmbed.value.2).height = none := by decide +kernel
    have hword : "50%".toList.all (!isBlank ·) = true := by decide
    rintro v (hv | hv)
    · rw [hwidth] at hv
      cases hv
      simpa using hword
    · rw [hheight] at hv
      cases hv
  obtain ⟨-, hread⟩ := figure_read_back_iff
    (Lowering.passEnds_of_vault plotVault _ _ .empty (.ofPath "main.md".toList) _) hmem rfl
    hreference hmeans (by decide +kernel) hsite
  refine ⟨hmem, hreference, (hread.mpr hsizes).trans ?_⟩
  decide +kernel

/-- An embed of a picture with a quoted width. -/
def quotedText : Text := "![[plot.png]]\x7bwidth=\"50 %\"\x7d".toList

/-- It is read as it is written. -/
def quotedEmbed : Hit (Embed × Option Text) :=
  ⟨⟨0, 27⟩, ⟨[], "plot.png".toList⟩, some "width=\"50 %\"".toList⟩

/-- **A width with a blank is cut off**: it is written without its quotes. -/
theorem figure_width_cut :
    quotedText.scan recogniseAttributedEmbed = [quotedEmbed] ∧
      Reference.parse? quotedEmbed.value.1.inner =
        some ⟨"plot.png".toList, none, none, none, none⟩ ∧
      plotLowering.figureAttributes quotedEmbed.value.2
        ⟨"plot.png".toList, none, none, none, none⟩ = { width := some "50 %".toList } ∧
      plotLowering.passText .empty (.ofPath "main.md".toList) quotedText =
        "![](plot.png)\x7bwidth=50 %\x7d".toList ∧
      directiveAttributes
        (plotLowering.passText .empty (.ofPath "main.md".toList) quotedText) =
          { width := some "50".toList } := by
  have htext : plotLowering.passText .empty (.ofPath "main.md".toList) quotedText =
      "![](plot.png)\x7bwidth=50 %\x7d".toList :=
    Lowering.passText_of_vault plotVault _ _ (by decide +kernel) (by decide +kernel)
  refine ⟨by decide +kernel, by decide +kernel, by decide +kernel, htext, ?_⟩
  rw [htext]
  decide +kernel

end NotePress
