import NotePress.Conversion.Prepared
import NotePress.Proofs.Copying
import NotePress.Proofs.Passes

/-!
# Pictures in prepared notes

An embed of a picture in a note that comes in is left by the expansion and lowered with the text it
comes into. So it is the text's document, not the embed's own note, that its reference is resolved
from. `picture_shown_iff` says when the picture that the reference means in its own note is the one
that is shown: it has to be what the reference means in the main note too, and a pass has to come
upon the embed.
-/

namespace NotePress

/-- A construct that shows a picture. -/
def Construct.Shows (construct : Construct) (img : DocumentId) : Prop :=
  ∃ quote label caption width height, construct = .image quote img label caption width height

namespace Lowering

variable {l : Lowering} {c : Cache} {source : DocumentId} {t x : Text}

/-! ### What an embed means -/

/-- The picture that an embed in `source` means: a document that is no note. -/
def pictureMeant (l : Lowering) (source : DocumentId) (inner : Text) : Option DocumentId :=
  (Reference.parse? inner).bind fun reference =>
    (l.resolver.meaning reference source).filter fun id => !id.isNote

/-- An embed becomes a construct that shows the picture it means. -/
theorem embedMeant_shows_iff {h : Embed × Option Text} {img : DocumentId} :
    (∃ construct, l.embedMeant source h = some construct ∧ construct.Shows img) ↔
      l.pictureMeant source h.1.inner = some img := by
  unfold embedMeant pictureMeant
  cases Reference.parse? h.1.inner with
  | none => simp
  | some reference =>
    cases hmeans : l.resolver.meaning reference source with
    | none => simp [hmeans]
    | some id =>
      simp only [Option.bind_some, hmeans, Option.map_some, Option.some.injEq, exists_eq_left',
        Option.filter_some]
      unfold embedConstruct Construct.Shows
      cases hnote : id.isNote with
      | true => simp
      | false => simp

/-- A site that shows a picture is that of an embed. -/
theorem exists_hit_of_shows {site : LoweringSite} (hsite : site ∈ l.candidates t source)
    {construct : Construct} (hconstruct : site.construct = some construct) {img : DocumentId}
    (hshows : construct.Shows img) :
    ∃ h ∈ t.scan recogniseAttributedEmbed, h.span = site.span ∧
      l.embedMeant source h.value = some construct := by
  obtain ⟨quote, label, caption, width, height, rfl⟩ := hshows
  rcases List.mem_append.mp hsite with hmem | hmem
  · rcases List.mem_append.mp hmem with hmem | hmem
    · obtain ⟨f, hf, rfl⟩ := List.mem_map.mp hmem
      obtain ⟨_, _, _, hlisting⟩ := constructOfFence_eq_some hconstruct
      cases hlisting
    · obtain ⟨h, hhit, he⟩ := List.mem_filterMap.mp hmem
      obtain ⟨meant, hmeant, rfl⟩ := Option.map_eq_some_iff.mp he
      cases hconstruct
      exact ⟨h, hhit, rfl, hmeant⟩
  · obtain ⟨h, hhit, he⟩ := List.mem_filterMap.mp hmem
    obtain ⟨meant, hmeant, rfl⟩ := Option.map_eq_some_iff.mp he
    cases hconstruct
    obtain ⟨reference, -, hmeant⟩ := Option.bind_eq_some_iff.mp hmeant
    obtain ⟨id, -, hnote⟩ := Option.map_eq_some_iff.mp hmeant
    cases hnote

/-! ### How passes come upon an embed -/

/-- What a pass writes for an embed with attributes. -/
def directive (l : Lowering) (source : DocumentId) (h : Embed × Option Text) : Text :=
  ((l.embedMeant source h).map l.render).getD []

/-- Where a pass over a text writes that. -/
def directiveSpan (l : Lowering) (c : Cache) (source : DocumentId) (t : Text)
    (h : Hit (Embed × Option Text)) : Span :=
  let start := t.landing (l.parts c source t) h.span.start
  ⟨start, start + ((l.seenThrough c).directive source h.value).length⟩

/-- A pass that lowering makes, the one after `n` others, meets an embed that stands at `p`: the
passes before it spare the embed, it finds the embed's brackets, and the passes behind it spare what
it writes for them. -/
structure Meets (l : Lowering) (c : Cache) (source : DocumentId) (x : Text) (p : Nat) (e : Embed)
    (n : Nat) (h : Hit (Embed × Option Text)) : Prop where
  made : n < (l.lower c x source).1.passes
  before : l.Stays c source x ⟨p, p + e.text.length⟩ n
  hit : h ∈ (l.afterPasses c source x n).scan recogniseAttributedEmbed
  brackets : h.span.start + h.value.1.quote.length =
    (l.follow c source x ⟨p, p + e.text.length⟩ n).start + e.quote.length
  behind : l.Stays c source (l.afterPasses c source x (n + 1))
    (l.directiveSpan c source (l.afterPasses c source x n) h)
    ((l.lower c x source).1.passes - (n + 1))

/-- **An embed is shown as a picture**: a pass meets it, and takes it for a construct that shows the
picture. -/
def ShownAs (l : Lowering) (c : Cache) (source : DocumentId) (x : Text) (p : Nat) (e : Embed)
    (img : DocumentId) : Prop :=
  ∃ n h, l.Meets c source x p e n h ∧ ∃ construct, construct.Shows img ∧
    ⟨h.span, some construct⟩ ∈ (l.seenThrough c).sitesIn (l.afterPasses c source x n) source

/-- **An embed is found**: a pass meets it, and takes nothing else in its place. -/
def Found (l : Lowering) (c : Cache) (source : DocumentId) (x : Text) (p : Nat) (e : Embed) :
    Prop :=
  ∃ n h, l.Meets c source x p e n h ∧
    ∀ site ∈ (l.seenThrough c).sitesIn (l.afterPasses c source x n) source,
      site.span.start ≤ h.span.start → h.span.start < site.span.stop →
        site = ⟨h.span, (l.seenThrough c).embedMeant source h.value⟩

variable {p n : Nat} {e : Embed} {h : Hit (Embed × Option Text)} {img : DocumentId}

/-- The brackets that a pass finds are those of the embed. -/
theorem Meets.inner_eq (hmeets : l.Meets c source x p e n h)
    (hends : ∀ m < (l.lower c x source).1.passes, l.PassEnds c source (l.afterPasses c source x m))
    (hx : x.HasAt p e.text) (hinner : IsInner e.inner) : h.value.1.inner = e.inner := by
  have hstands := hasAt_follow e.text_ne_nil
    (fun m hm => hends m (Nat.lt_trans hm hmeets.made)) hmeets.before hx
  obtain ⟨hbrackets, hinner'⟩ := hasAt_of_mem_scan_attributedEmbed hmeets.hit
  have hown : Text.HasAt e.text e.quote.length (NotePress.brackets e.inner) := by
    unfold Text.HasAt Embed.text
    rw [List.drop_left]
  rw [hmeets.brackets] at hbrackets
  exact brackets_inj hbrackets (hstands.inner hown) hinner' hinner

/-- A construct that shows a picture where a pass meets an embed is what the embed becomes. -/
theorem Meets.embedMeant_eq (hmeets : l.Meets c source x p e n h) {construct : Construct}
    (hshows : construct.Shows img)
    (hsite : ⟨h.span, some construct⟩ ∈
      (l.seenThrough c).sitesIn (l.afterPasses c source x n) source) :
    (l.seenThrough c).embedMeant source h.value = some construct := by
  obtain ⟨h', hhit, hspan, hmeant⟩ := exists_hit_of_shows (mem_of_mem_arrange hsite) rfl hshows
  have hspan : h'.span = h.span := hspan
  have heq : h' = h := by
    by_contra hne
    have hlt := (marked_recogniseAttributedEmbed.of_mem_scan hhit).1
    have hapart := Span.apart_of_pairwise
      ((Text.scan_pairwise recogniseAttributedEmbed _).imp And.right) hhit hmeets.hit hne
    unfold Span.Apart at hapart
    rw [← hspan] at hapart
    omega
  rwa [heq] at hmeant

/-- **When an embed is shown as a picture**: its reference means the picture in the text's document,
and it is found. -/
theorem shownAs_iff
    (hends : ∀ m < (l.lower c x source).1.passes, l.PassEnds c source (l.afterPasses c source x m))
    (hx : x.HasAt p e.text) (hinner : IsInner e.inner) :
    l.ShownAs c source x p e img ↔
      (l.seenThrough c).pictureMeant source e.inner = some img ∧ l.Found c source x p e := by
  constructor
  · rintro ⟨n, h, hmeets, construct, hshows, hsite⟩
    have hmeant := hmeets.embedMeant_eq hshows hsite
    refine ⟨?_, n, h, hmeets, fun site hsite' hstart hstop => ?_⟩
    · rw [← hmeets.inner_eq hends hx hinner]
      exact embedMeant_shows_iff.mp ⟨construct, hmeant, hshows⟩
    · by_contra hne
      rw [hmeant] at hne
      have hlt := (marked_recogniseAttributedEmbed.of_mem_scan hmeets.hit).1
      have hapart := Span.apart_of_pairwise (sitesIn_pairwise _ _ _) hsite' hsite hne
      unfold Span.Apart at hapart
      simp only at hapart
      omega
  · rintro ⟨hmeans, n, h, hmeets, hfree⟩
    rw [← hmeets.inner_eq hends hx hinner] at hmeans
    obtain ⟨construct, hmeant, hshows⟩ := embedMeant_shows_iff.mpr hmeans
    refine ⟨n, h, hmeets, construct, hshows, ?_⟩
    have hsite : (⟨h.span, (l.seenThrough c).embedMeant source h.value⟩ : LoweringSite) ∈
        (l.seenThrough c).candidates (l.afterPasses c source x n) source :=
      List.mem_append_left _ (List.mem_append_right _
        (mem_sitesMeant hmeets.hit (Option.isSome_of_eq_some hmeant)))
    rw [← hmeant]
    rcases mem_arrange_or hsite with hkept | ⟨kept, hkept, hstart, hstop⟩
    · exact hkept
    · exact hfree kept hkept hstart hstop ▸ hkept

/-- A construct that shows a picture is written as an image with the picture as its destination. -/
theorem render_of_shows {construct : Construct} (h : construct.Shows img) : ∃ front back,
    l.render construct = front ++ "](".toList ++ destinationOf img ++ [')'] ++ back := by
  obtain ⟨quote, label, caption, width, height, rfl⟩ := h
  unfold render figureOf quotedImage
  simp only
  split
  · exact ⟨_, _, rfl⟩
  · exact ⟨quote ++ "![".toList, _, by rw [List.append_assoc quote "![".toList]; rfl⟩

theorem render_ne_nil_of_shows {construct : Construct} (h : construct.Shows img) :
    l.render construct ≠ [] := by
  obtain ⟨front, back, hrender⟩ := @render_of_shows l img construct h
  simp [hrender]

/-- What is shown stands in what lowering gives. -/
theorem ShownAs.exists_hasAt (hshown : l.ShownAs c source x p e img)
    (hends : ∀ m < (l.lower c x source).1.passes,
      l.PassEnds c source (l.afterPasses c source x m)) :
    ∃ q construct, construct.Shows img ∧
      (l.lower c x source).1.text.HasAt q (l.render construct) := by
  obtain ⟨n, h, hmeets, construct, hshows, hsite⟩ := hshown
  have hmeant := hmeets.embedMeant_eq hshows hsite
  have hasks : (⟨h.span, some construct⟩ : LoweringSite).asks = none := by
    obtain ⟨_, _, _, _, _, rfl⟩ := hshows
    rfl
  have hmade := hmeets.made
  have hwritten : (l.afterPasses c source x (n + 1)).HasAt
      (l.directiveSpan c source (l.afterPasses c source x n) h).start (l.render construct) := by
    rw [afterPasses_succ, passText_eq (hends n hmade)]
    exact Text.hasAt_splice_of_mem (fits_parts _ _ _ _) (mem_parts hsite rfl hasks)
  have hspan : l.directiveSpan c source (l.afterPasses c source x n) h =
      ⟨(l.directiveSpan c source (l.afterPasses c source x n) h).start,
        (l.directiveSpan c source (l.afterPasses c source x n) h).start +
          (l.render construct).length⟩ := by
    unfold directiveSpan directive
    rw [hmeant]
    rfl
  have hbehind := hmeets.behind
  rw [hspan] at hbehind
  have hstands := hasAt_follow (render_ne_nil_of_shows hshows) (fun m hm => ?_) hbehind hwritten
  · rw [afterPasses_add, show n + 1 + ((l.lower c x source).1.passes - (n + 1)) =
      (l.lower c x source).1.passes by omega, ← lower_text] at hstands
    exact ⟨_, construct, hshows, hstands⟩
  · rw [afterPasses_add]
    exact hends _ (by omega)

end Lowering

namespace Prepared

variable (g : Collection) (c : Cache) (t : Text) (main : DocumentId) (p : Profile)
  (format : ExportFormat)

/-- The text of a note with its embeds expanded. -/
def expanded : Text := ((Resolver.within g none).expand c t main).1.text

/-- How an expanded note is lowered. -/
def lowering : Lowering := Lowering.of g p format.keepsTex

/-- **An embed at the end of a way is shown as a picture**: the expansion copies it to a place where
lowering shows it as the picture. -/
def Shows (path : List (Hit Embed)) (d : DocumentId) (e : Hit Embed) (img : DocumentId) : Prop :=
  ∃ q, (Resolver.within g none).Copies c t [main] path d e q ∧
    (lowering g p format).ShownAs c main (expanded g c t main) q e.value img

/-- An embed at the end of a way is found by lowering, where the expansion copies it to. -/
def Finds (path : List (Hit Embed)) (d : DocumentId) (e : Hit Embed) : Prop :=
  ∀ q, (Resolver.within g none).Copies c t [main] path d e q →
    (lowering g p format).Found c main (expanded g c t main) q e.value

/-- What is lowered is the expanded note, with the same view of the collection. -/
theorem markdown_eq (hexpands : ((Resolver.within g none).expander.weave? t main [main] c).isSome) :
    (Prepared.of g c t main p format).1.markdown =
      ((lowering g p format).lower c (expanded g c t main) main).1.text := by
  obtain ⟨out, hout⟩ := Option.isSome_iff_exists.mp hexpands
  have hexpand : (Resolver.within g none).expand c t main = out := Weaver.weave_of_some hout
  have hseen : (lowering g p format).resolver.collection.seenThrough
      ((Resolver.within g none).expand c t main).2 =
        (lowering g p format).resolver.collection.seenThrough c := by
    rw [hexpand]
    exact Weaver.seenThrough_weave? (Resolver.within g none).finds_expander hout
  have hsame : ((lowering g p format).lower ((Resolver.within g none).expand c t main).2
      (expanded g c t main) main).1 =
        ((lowering g p format).lower c (expanded g c t main) main).1 :=
    Lowering.settle_congr hseen
  exact congrArg LoweringOutcome.text hsame

end Prepared

/-- **Which picture is shown for an embed of a note that comes in.** Where its reference means a
picture in its own note, that picture is shown just when the expansion leaves the embed, the
reference means the same picture in the main note, and lowering finds the embed; and what is shown
stands in the prepared text. -/
theorem picture_shown_iff (g : Collection) (c : Cache) (t : Text) (main : DocumentId) (p : Profile)
    (format : ExportFormat)
    (hexpands : ((Resolver.within g none).expander.weave? t main [main] c).isSome)
    (hends : ∀ n < ((Prepared.lowering g p format).lower c
        (Prepared.expanded g c t main) main).1.passes,
      (Prepared.lowering g p format).PassEnds c main
        ((Prepared.lowering g p format).afterPasses c main (Prepared.expanded g c t main) n))
    {path : List (Hit Embed)} {t' : Text} {d : DocumentId} {above : List DocumentId} {e : Hit Embed}
    (hway : ((Resolver.within g none).seenThrough c).Way t [main] path t' (d :: above))
    (hnodup : (d :: above).Nodup) (hembed : e ∈ t'.openEmbeds) {img : DocumentId}
    (hmeans : ((Prepared.lowering g p format).seenThrough c).pictureMeant d e.value.inner =
      some img) :
    (Prepared.Shows g c t main p format path d e img ↔
      ((Resolver.within g none).seenThrough c).Leaves d above e ∧
        ((Prepared.lowering g p format).seenThrough c).pictureMeant main e.value.inner =
          ((Prepared.lowering g p format).seenThrough c).pictureMeant d e.value.inner ∧
        Prepared.Finds g c t main p format path d e) ∧
    (Prepared.Shows g c t main p format path d e img → ∃ q construct, construct.Shows img ∧
      (Prepared.of g c t main p format).1.markdown.HasAt q
        ((Prepared.lowering g p format).render construct)) := by
  have hstands : ∀ {q}, (Resolver.within g none).Copies c t [main] path d e q →
      (Prepared.expanded g c t main).HasAt q e.value.text ∧ IsInner e.value.inner := by
    intro q hcopies
    obtain ⟨hhas, -, hinner⟩ := hcopies.hasAt main [] rfl hexpands
    exact ⟨hhas, hinner⟩
  constructor
  · rw [hmeans, ← Resolver.inserted_eq_none_iff]
    constructor
    · rintro ⟨q, hcopies, hshown⟩
      obtain ⟨hhas, hinner⟩ := hstands hcopies
      obtain ⟨hmain, hfound⟩ := (Lowering.shownAs_iff hends hhas hinner).mp hshown
      obtain ⟨t'', above', hway', -, -, hleft⟩ :=
        (Resolver.exists_copies_iff (List.nodup_singleton main)).mp ⟨q, hcopies⟩
      obtain ⟨-, habove⟩ := hway'.unique hway
      cases habove
      exact ⟨hleft, hmain, fun q' hcopies' => hcopies.unique hcopies' ▸ hfound⟩
    · rintro ⟨hleft, hmain, hfinds⟩
      obtain ⟨q, hcopies⟩ := (Resolver.exists_copies_iff (List.nodup_singleton main)).mpr
        ⟨t', above, hway, hnodup, hembed, hleft⟩
      obtain ⟨hhas, hinner⟩ := hstands hcopies
      exact ⟨q, hcopies, (Lowering.shownAs_iff hends hhas hinner).mpr ⟨hmain, hfinds q hcopies⟩⟩
  · rintro ⟨q, -, hshown⟩
    rw [Prepared.markdown_eq g c t main p format hexpands]
    exact hshown.exists_hasAt hends

/-! ### A picture that is lost -/

/-- A note with an embed of a picture beside it, and a picture of the same name further up. -/
def pictureVault : MemoryVault :=
  ⟨[(.ofPath "d/img.png".toList, []), (.ofPath "d/n.md".toList, "![[img.png]]".toList),
    (.ofPath "img.png".toList, [])], []⟩

/-- The embed of the note. -/
def noteEmbed : Hit Embed := ⟨⟨0, 8⟩, ⟨[], "d/n".toList⟩⟩

/-- The embed of the picture. -/
def pictureEmbed : Hit Embed := ⟨⟨0, 12⟩, ⟨[], "img.png".toList⟩⟩

/-- The note that embeds the other one. -/
abbrev mainNote : DocumentId := .ofPath "main.md".toList

/-- The note with the embed of the picture. -/
abbrev pictureNote : DocumentId := .ofPath "d/n.md".toList

/-- Lowering in that collection, without a width for pictures. -/
def pictureLowering : Lowering :=
  Prepared.lowering pictureVault.toCollection { scaleImages := false } .pdf

theorem mem_openEmbeds_noteEmbed : noteEmbed ∈ Text.openEmbeds "![[d/n]]".toList := by
  have hembeds : Text.openEmbeds "![[d/n]]".toList = [noteEmbed] := rfl
  rw [hembeds]
  exact List.mem_singleton_self _

theorem mem_openEmbeds_pictureEmbed : pictureEmbed ∈ Text.openEmbeds "![[img.png]]".toList := by
  have hembeds : Text.openEmbeds "![[img.png]]".toList = [pictureEmbed] := rfl
  rw [hembeds]
  exact List.mem_singleton_self _

theorem noteMeant_noteEmbed :
    (Resolver.within pictureVault.toCollection none).noteMeant mainNote noteEmbed =
      some (pictureNote, .whole) := by
  decide

theorem pictureVault_reads :
    (Resolver.within pictureVault.toCollection none).Reads pictureNote .whole
      "![[img.png]]".toList :=
  ⟨"![[img.png]]".toList, by decide, by decide⟩

/-- The picture is reached through the note. -/
theorem pictureVault_way :
    ((Resolver.within pictureVault.toCollection none).seenThrough .empty).Way "![[d/n]]".toList
      [mainNote] [noteEmbed] "![[img.png]]".toList [pictureNote, mainNote] := by
  rw [Resolver.seenThrough_empty]
  exact .down mem_openEmbeds_noteEmbed noteMeant_noteEmbed pictureVault_reads .here

/-- The picture beside the note is what its embed means there. -/
theorem pictureVault_means :
    (pictureLowering.seenThrough .empty).pictureMeant pictureNote pictureEmbed.value.inner =
      some (.ofPath "d/img.png".toList) := by
  rw [Lowering.seenThrough_empty]
  decide

theorem pictureVault_expands : ((Resolver.within pictureVault.toCollection none).expander.weave?
    "![[d/n]]".toList mainNote [mainNote] .empty).isSome :=
  Weaver.weave?_isSome (Resolver.finds_expander _)
    (Collection.finite_readable_seenThrough pictureVault.finite_readable _) _ _ _ rfl

/-- The embed of the picture comes in as it is written. -/
theorem pictureVault_expanded :
    Prepared.expanded pictureVault.toCollection .empty "![[d/n]]".toList mainNote =
      "![[img.png]]".toList := by
  have hleft : (Resolver.within pictureVault.toCollection none).inserted .empty pictureNote
      [mainNote] pictureEmbed = none := by
    rw [Resolver.inserted_eq_none_iff, Resolver.seenThrough_empty]
    intro target part hmeans
    rw [show (Resolver.within pictureVault.toCollection none).noteMeant pictureNote
      pictureEmbed = none by decide] at hmeans
    cases hmeans
  have hinner : ((Resolver.within pictureVault.toCollection none).expandVisited .empty
      "![[img.png]]".toList pictureNote [pictureNote, mainNote]).1.text =
        "![[img.png]]".toList := by
    have hends := pictureVault_way.ends (by decide)
      (by rintro _ _ ⟨⟩; exact pictureVault_expands) _ _ rfl
    rw [Resolver.expandVisited_text hends, Resolver.insertions,
      show Text.openEmbeds "![[img.png]]".toList = [pictureEmbed] from rfl,
      List.filterMap_cons_none (by rw [hleft]; rfl)]
    rfl
  have hinserted : (Resolver.within pictureVault.toCollection none).inserted .empty mainNote []
      noteEmbed = some "![[img.png]]".toList := by
    rw [Resolver.inserted_of_reads (by rw [Resolver.seenThrough_empty]; exact noteMeant_noteEmbed)
      (by decide) (by rw [Resolver.seenThrough_empty]; exact pictureVault_reads), hinner]
    rfl
  unfold Prepared.expanded Resolver.expand
  rw [Resolver.expandVisited_text pictureVault_expands, Resolver.insertions,
    show Text.openEmbeds "![[d/n]]".toList = [noteEmbed] from rfl,
    List.filterMap_cons_some (by rw [hinserted]; rfl)]
  rfl

/-- What is shown is the other picture. -/
theorem pictureVault_markdown :
    (Prepared.of pictureVault.toCollection .empty "![[d/n]]".toList mainNote
      { scaleImages := false } .pdf).1.markdown = "![](img.png)".toList := by
  have honce : pictureLowering.afterPasses .empty mainNote "![[img.png]]".toList 1 =
      "![](img.png)".toList :=
    Lowering.passText_of_vault pictureVault _ _ (by decide) (by decide)
  rw [Prepared.markdown_eq _ _ _ _ _ _ pictureVault_expands, pictureVault_expanded]
  show (pictureLowering.lower .empty _ _).1.text = _
  rw [Lowering.lower_text_of_fixed (n := 1) (by decide) ?_, honce]
  rw [honce]
  exact Lowering.passText_of_vault pictureVault _ _ (by decide) (by decide)

/-- **A picture can be lost.** An embed in a note means the picture beside the note, and nothing
that shows that picture is in the prepared text of a main note that embeds the note. -/
theorem picture_of_note_lost :
    ((Resolver.within pictureVault.toCollection none).seenThrough .empty).Way "![[d/n]]".toList
        [mainNote] [noteEmbed] "![[img.png]]".toList [pictureNote, mainNote] ∧
      pictureEmbed ∈ Text.openEmbeds "![[img.png]]".toList ∧
      (pictureLowering.seenThrough .empty).pictureMeant pictureNote pictureEmbed.value.inner =
        some (.ofPath "d/img.png".toList) ∧
      ¬∃ q construct, construct.Shows (.ofPath "d/img.png".toList) ∧
        (Prepared.of pictureVault.toCollection .empty "![[d/n]]".toList mainNote
          { scaleImages := false } .pdf).1.markdown.HasAt q (pictureLowering.render construct) := by
  refine ⟨pictureVault_way, mem_openEmbeds_pictureEmbed, pictureVault_means, ?_⟩
  rintro ⟨q, construct, hshows, hhas⟩
  obtain ⟨front, back, hrender⟩ := Lowering.render_of_shows (l := pictureLowering) hshows
  have hdestination : 'd' ∈ destinationOf (.ofPath "d/img.png".toList) := by decide +kernel
  have hmem : 'd' ∈ pictureLowering.render construct := by
    rw [hrender]
    exact List.mem_append_left _ (List.mem_append_left _ (List.mem_append_right _ hdestination))
  rw [pictureVault_markdown] at hhas
  exact absurd (List.mem_of_mem_drop (hhas.subset hmem)) (by decide)

/-- The condition for that embed. -/
theorem picture_shown_iff_note :
    (Prepared.Shows pictureVault.toCollection .empty "![[d/n]]".toList mainNote
        { scaleImages := false } .pdf [noteEmbed] pictureNote pictureEmbed
        (.ofPath "d/img.png".toList) ↔
      ((Resolver.within pictureVault.toCollection none).seenThrough .empty).Leaves pictureNote
          [mainNote] pictureEmbed ∧
        (pictureLowering.seenThrough .empty).pictureMeant mainNote pictureEmbed.value.inner =
          (pictureLowering.seenThrough .empty).pictureMeant pictureNote pictureEmbed.value.inner ∧
        Prepared.Finds pictureVault.toCollection .empty "![[d/n]]".toList mainNote
          { scaleImages := false } .pdf [noteEmbed] pictureNote pictureEmbed) ∧
    (Prepared.Shows pictureVault.toCollection .empty "![[d/n]]".toList mainNote
        { scaleImages := false } .pdf [noteEmbed] pictureNote pictureEmbed
        (.ofPath "d/img.png".toList) →
      ∃ q construct, construct.Shows (.ofPath "d/img.png".toList) ∧
        (Prepared.of pictureVault.toCollection .empty "![[d/n]]".toList mainNote
          { scaleImages := false } .pdf).1.markdown.HasAt q (pictureLowering.render construct)) :=
  picture_shown_iff pictureVault.toCollection .empty _ mainNote { scaleImages := false } .pdf
    pictureVault_expands (fun _ _ => Lowering.passEnds_of_vault pictureVault _ _ _ _ _)
    pictureVault_way (by decide +kernel) mem_openEmbeds_pictureEmbed pictureVault_means

end NotePress
