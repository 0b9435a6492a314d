import Mathlib.Data.List.Perm.Subperm
import NotePress.Proofs.Edits
import NotePress.Proofs.Leftovers

/-!
# The sites that a pass keeps

A pass finds fences, embeds and note images that may overlap, and keeps some that do not
(`Lowering.KeepsApart`). It edits the text at those of them that become something
(`Lowering.rewritten`), in place and in order.

An embed or a note image that means no document is no site, so it shields nothing. It is left as it
stands unless a site that covers its start is replaced, or one that starts in it:
`Lowering.free_embed_iff` and `Lowering.free_image_iff` say which sites these can be. In an embed it
is a note image in the attribute block, as in `attributes_rewritten`.
-/

namespace NotePress

/-! ### Characters of a piece -/

theorem Text.HasAt.getElem?_add {t piece : Text} {p k : Nat} (h : t.HasAt p piece)
    (hk : k < piece.length) : t[p + k]? = piece[k]? := by
  obtain ⟨after, hafter⟩ := h
  rw [← List.getElem?_drop, ← hafter, List.getElem?_append_left hk]

/-- Where opening brackets stand in an embed. -/
theorem Embed.eq_of_getElem?_text {e : Embed} (hquote : '[' ∉ e.quote) (hinner : IsInner e.inner)
    {k : Nat} (h : e.text[k]? = some '[') : k = e.quote.length + 1 ∨ k = e.quote.length + 2 := by
  unfold Embed.text brackets at h
  rcases Nat.lt_or_ge k e.quote.length with hlt | hge
  · rw [List.getElem?_append_left hlt] at h
    exact absurd (List.mem_of_getElem? h) hquote
  · rw [List.getElem?_append_right hge] at h
    -- behind the quote prefix stand the three marks, the inside and the closing brackets
    rcases hk : k - e.quote.length with _ | _ | _ | j
    · rw [hk] at h
      exact absurd h (by simp)
    · omega
    · omega
    · rw [hk] at h
      have h : (e.inner ++ [']', ']'])[j]? = some '[' := h
      rcases List.mem_append.mp (List.mem_of_getElem? h) with hmem | hmem
      · exact absurd rfl (hinner.2 _ hmem).1
      · exact absurd hmem (by decide)

/-- The quote prefix of an embed is made of quote characters. -/
theorem not_mem_quote_of_mem_scan {t : Text} {h : Hit (Embed × Option Text)}
    (hmem : h ∈ t.scan recogniseAttributedEmbed) {x : Char} (hx : isQuoteChar x = false) :
    x ∉ h.value.1.quote := by
  obtain ⟨n, hfound, -⟩ := Text.recognised_of_mem_scan hmem
  obtain ⟨⟨inner, after⟩, -, he⟩ := Option.map_eq_some_iff.mp hfound
  simp only at he
  split at he
  all_goals
    rw [← (Prod.mk.inj he).2]
    exact not_mem_quoteAt hx

/-- A note image is a `!` with one opening bracket, behind quote characters. -/
theorem exists_mark_of_mem_scan_image {t : Text} {i : Hit (Embed × Text)}
    (hmem : i ∈ t.scan recogniseImage) :
    ∃ p, i.span.start ≤ p ∧
      (∀ k, i.span.start ≤ k → k < p → ∃ x, t[k]? = some x ∧ isQuoteChar x = true) ∧
        t[p]? = some '!' ∧ t[p + 1]? = some '[' ∧ t[p + 2]? ≠ some '[' := by
  obtain ⟨n, hfound, -⟩ := Text.recognised_of_mem_scan hmem
  obtain ⟨found, hread, -⟩ := Option.map_eq_some_iff.mp hfound
  have hfront := quoteAt_append_drop (t.take i.span.start).getLast? (t.drop i.span.start)
  generalize hquote : quoteAt (t.take i.span.start).getLast? (t.drop i.span.start) = quote
    at hread hfront
  obtain ⟨rest, hrest, hone⟩ : ∃ rest, (t.drop i.span.start).drop quote.length =
      '!' :: '[' :: rest ∧ rest[0]? ≠ some '[' := by
    unfold readImage? at hread
    split at hread
    · rename_i rest hrest
      refine ⟨rest, hrest, fun hbracket => ?_⟩
      cases rest with
      | nil => cases hbracket
      | cons x rest =>
        cases hbracket
        simp at hread
    · cases hread
  rw [hrest] at hfront
  refine ⟨i.span.start + quote.length, Nat.le_add_right _ _, fun k hk hlt => ?_, ?_, ?_, ?_⟩
  · obtain ⟨j, rfl⟩ := Nat.exists_eq_add_of_le hk
    have hj : j < quote.length := by omega
    refine ⟨quote[j], ?_, ?_⟩
    · rw [← List.getElem?_drop, ← hfront, List.getElem?_append_left hj, List.getElem?_eq_getElem]
    · by_contra hfalse
      have hmem : quote[j] ∈ quoteAt (t.take i.span.start).getLast? (t.drop i.span.start) := by
        rw [hquote]
        exact List.getElem_mem hj
      exact not_mem_quoteAt (by simpa using hfalse) hmem
  · rw [← List.getElem?_drop, ← hfront, List.getElem?_append_right (Nat.le_refl _), Nat.sub_self]
    rfl
  · rw [Nat.add_assoc, ← List.getElem?_drop, ← hfront,
      List.getElem?_append_right (Nat.le_add_right _ _), Nat.add_sub_cancel_left]
    rfl
  · rw [Nat.add_assoc, ← List.getElem?_drop, ← hfront,
      List.getElem?_append_right (Nat.le_add_right _ _), Nat.add_sub_cancel_left]
    exact hone

/-- **No note image starts in the brackets of an embed**, or in its quote prefix. -/
theorem le_start_of_mem_scan_image {t : Text} {h : Hit (Embed × Option Text)}
    (hembed : h ∈ t.scan recogniseAttributedEmbed) {i : Hit (Embed × Text)}
    (himage : i ∈ t.scan recogniseImage) (hlt : h.span.start < i.span.start) :
    h.span.start + h.value.1.text.length ≤ i.span.start := by
  by_contra hnot
  obtain ⟨hstands, -, -, hinner⟩ := hasAt_attributedText hembed
  have htext : t.HasAt h.span.start h.value.1.text :=
    (List.prefix_append _ _).trans hstands
  have hquote : '[' ∉ h.value.1.quote := not_mem_quote_of_mem_scan hembed rfl
  obtain ⟨p, hstart, hquoted, hbang, hbracket, hone⟩ := exists_mark_of_mem_scan_image himage
  have hlength : h.value.1.text.length =
      h.value.1.quote.length + (h.value.1.inner.length + 5) := by
    simp [Embed.text, brackets]
  -- the last character of the embed is a bracket, so the marks of the image stand in front of it
  have hlast : t[h.span.start + (h.value.1.text.length - 1)]? = some ']' := by
    have hsplit : h.value.1.text =
        h.value.1.quote ++ '!' :: '[' :: '[' :: (h.value.1.inner ++ [']']) ++ [']'] := by
      simp [Embed.text, brackets]
    rw [htext.getElem?_add (by omega), ← List.getLast?_eq_getElem?, hsplit, List.getLast?_concat]
  have hfront : p < h.span.start + (h.value.1.text.length - 1) := by
    rcases Nat.lt_trichotomy p (h.span.start + (h.value.1.text.length - 1)) with hp | rfl | hp
    · exact hp
    · rw [hlast] at hbang
      cases hbang
    · obtain ⟨x, hx, hquoteChar⟩ := hquoted _ (by omega) hp
      rw [hlast] at hx
      cases hx
      cases hquoteChar
  obtain ⟨k, rfl⟩ := Nat.exists_eq_add_of_le (by omega : h.span.start ≤ p)
  rw [htext.getElem?_add (by omega)] at hbang
  rw [Nat.add_assoc, htext.getElem?_add (by omega)] at hbracket
  rcases Embed.eq_of_getElem?_text hquote hinner hbracket with heq | heq
  · -- it is the first bracket of the embed, behind which there is another one
    refine hone ?_
    rw [Nat.add_assoc, htext.getElem?_add (by omega), show k + 2 = h.value.1.quote.length + 2 by
      omega]
    simp [Embed.text, brackets]
  · -- it is the second one, and the `!` in front of it the first
    rw [show k = h.value.1.quote.length + 1 by omega] at hbang
    simp [Embed.text, brackets] at hbang

namespace Lowering

variable {l : Lowering} {c : Cache} {source : DocumentId} {t : Text}

/-! ### Keeping apart -/

/-- The kept sites that become something; the others only shield their inside. -/
def rewritten (l : Lowering) (t : Text) (source : DocumentId) : List LoweringSite :=
  (l.sitesIn t source).filter (·.construct.isSome)

/-- **Some candidates are kept**: in bounds, in order and apart, and all others are dropped for one
that covers their start. -/
structure KeepsApart (t : Text) (candidates sites : List LoweringSite) : Prop where
  fits : t.Fits (sites.map (·.span))
  boundaries : ∀ site ∈ sites, site.span.OnBoundaries t
  among : sites.Subperm candidates
  dropped : ∀ site ∈ candidates, site ∈ sites ∨ ∃ kept ∈ sites,
    kept.span.start ≤ site.span.start ∧ site.span.start < kept.span.stop

theorem keepsApart_sitesIn (l : Lowering) (t : Text) (source : DocumentId) :
    KeepsApart t (l.candidates t source) (l.sitesIn t source) := by
  have hlt : ∀ site ∈ l.sitesIn t source,
      site.span.start < site.span.stop ∧ site.span.stop ≤ t.length :=
    fun site hsite => candidate_lt (mem_of_mem_arrange hsite)
  refine ⟨⟨List.pairwise_map.mpr (sitesIn_pairwise l t source), ?_⟩, ?_, ?_,
    fun site hsite => mem_arrange_or hsite⟩
  · intro s hs
    obtain ⟨site, hsite, rfl⟩ := List.mem_map.mp hs
    exact hlt site hsite
  · exact fun site hsite => Span.onBoundaries (Nat.le_of_lt (hlt site hsite).1)
  · have hperm := foldl_insertSite_perm (l.candidates t source) []
    rw [List.append_nil] at hperm
    exact (keepApart_sublist 0 _).subperm.trans hperm.subperm

/-! ### Editing -/

/-- Something stands in the end at a site that becomes something, and at no other. -/
theorem isSome_filled {visited : List DocumentId} {site : LoweringSite} :
    (l.lowerer.filled c source visited site).1.isSome = site.construct.isSome := by
  unfold Weaver.filled
  cases hanswer : l.lowerer.answer visited site (l.lowerer.collection.seenThrough c) with
  | error why => exact Option.isSome_map
  | ok found => exact (construct_of_granted hanswer).symm

/-- What a pass puts in, it puts in at the sites that become something. -/
theorem parts_spans : (l.parts c source t).map (·.1) =
    ((l.seenThrough c).rewritten t source).map (·.span) := by
  unfold parts rewritten
  induction (l.seenThrough c).sitesIn t source with
  | nil => rfl
  | cons site rest ih =>
    have hsome := @isSome_filled l c source [source] site
    cases hnew : (l.lowerer.filled c source [source] site).1 with
    | none =>
      rw [hnew] at hsome
      rw [List.filterMap_cons_none (by rw [hnew]; rfl), ih,
        List.filter_cons_of_neg (by rw [← hsome]; exact Bool.false_ne_true)]
    | some new =>
      rw [hnew] at hsome
      rw [List.filterMap_cons_some (by rw [hnew]; rfl), List.filter_cons_of_pos
        (by rw [← hsome]; rfl),
        List.map_cons, List.map_cons, ih]

/-! ### What is left -/

/-- No kept site that becomes something meets a part of the text. -/
def Free (l : Lowering) (t : Text) (source : DocumentId) (b : Span) : Prop :=
  ∀ site ∈ l.rewritten t source, site.span.Apart b

/-- No kept site that becomes something covers a position. -/
def Uncovered (l : Lowering) (t : Text) (source : DocumentId) (p : Nat) : Prop :=
  ∀ site ∈ l.rewritten t source, ¬(site.span.start ≤ p ∧ p < site.span.stop)

/-- The sites that become something, by what they are. -/
theorem rewritten_cases {site : LoweringSite} (h : site ∈ l.rewritten t source) :
    (∃ f ∈ t.fences, site = l.fenceSite f) ∨
      (∃ e ∈ t.scan recogniseAttributedEmbed, site = ⟨e.span, l.embedMeant source e.value⟩) ∨
        ∃ i ∈ t.scan recogniseImage, site = ⟨i.span, l.imageMeant source i.value⟩ := by
  have hmeant : ∀ {α : Type} {meant : α → Option Construct} {hits : List (Hit α)},
      site ∈ sitesMeant meant hits → ∃ hit ∈ hits, site = ⟨hit.span, meant hit.value⟩ := by
    intro α meant hits hsite
    obtain ⟨hit, hhit, he⟩ := List.mem_filterMap.mp hsite
    obtain ⟨construct, hconstruct, rfl⟩ := Option.map_eq_some_iff.mp he
    exact ⟨hit, hhit, by rw [hconstruct]⟩
  rcases List.mem_append.mp (mem_of_mem_arrange (List.mem_filter.mp h).1) with hsite | hsite
  · rcases List.mem_append.mp hsite with hsite | hsite
    · obtain ⟨f, hf, rfl⟩ := List.mem_map.mp hsite
      exact .inl ⟨f, hf, rfl⟩
    · exact .inr (.inl (hmeant hsite))
  · exact .inr (.inr (hmeant hsite))

/-- A part on one line that no fence starts in is free if its start is not covered and no embed or
image that becomes something starts in it. -/
theorem free_of_uncovered {α : Type} {recognise : Recogniser α} (hmarked : recognise.Marked)
    {h : Hit α} (hmem : h ∈ t.scan recognise) (hcovered : l.Uncovered t source h.span.start)
    (hinside : ∀ site ∈ l.rewritten t source, (∀ f ∈ t.fences, site ≠ l.fenceSite f) →
      ¬(h.span.start < site.span.start ∧ site.span.start < h.span.stop)) :
    l.Free t source h.span := by
  intro site hsite
  by_contra hmeet
  unfold Span.Apart at hmeet
  rw [not_or, Nat.not_le, Nat.not_le] at hmeet
  have hstart : h.span.start < site.span.start := by
    by_contra hle
    exact hcovered site hsite ⟨Nat.not_lt.mp hle, hmeet.1⟩
  refine hinside site hsite (fun f hf heq => ?_) ⟨hstart, hmeet.2⟩
  have hfence := (Text.stands_of_mem_fences hf).not_reached hmarked hmem
  subst heq
  have hstart : h.span.start < f.span.start := hstart
  have hstop : f.span.start < h.span.stop := hmeet.2
  omega

/-- A part that is free has an uncovered start, and no site that is replaced starts in it. -/
theorem Free.uncovered {b : Span} (h : l.Free t source b) (hb : b.start < b.stop) :
    l.Uncovered t source b.start ∧ ∀ site ∈ l.rewritten t source,
      ¬(b.start ≤ site.span.start ∧ site.span.start < b.stop) := by
  have hlt : ∀ site ∈ l.rewritten t source, site.span.start < site.span.stop :=
    fun site hsite => (candidate_lt (mem_of_mem_arrange (List.mem_filter.mp hsite).1)).1
  constructor
  all_goals
    intro site hsite hcovers
    have := hlt site hsite
    have := h site hsite
    unfold Span.Apart at this
    omega

/-- A hit that is replaced does not start in another hit of its scan, if that one is no site. -/
theorem not_starts_of_rewritten {α : Type} {recognise : Recogniser α} (hmarked : recognise.Marked)
    {meant : α → Option Construct} {h other : Hit α} (hmem : h ∈ t.scan recognise)
    (hnone : meant h.value = none) (hother : other ∈ t.scan recognise)
    (hsite : ⟨other.span, meant other.value⟩ ∈ l.rewritten t source) :
    ¬(h.span.start < other.span.start ∧ other.span.start < h.span.stop) := by
  have hne : other ≠ h := by
    rintro rfl
    have hsome : (meant other.value).isSome := (List.mem_filter.mp hsite).2
    rw [hnone] at hsome
    cases hsome
  have hapart := Span.apart_of_pairwise ((t.scan_pairwise recognise).imp And.right) hother hmem hne
  have := (hmarked.of_mem_scan hother).1
  unfold Span.Apart at hapart
  omega

/-- **When an embed that means no document is left**: no site that is replaced covers its start, and
no note image that is replaced starts in its attribute block. -/
theorem free_embed_iff {h : Hit (Embed × Option Text)} (hmem : h ∈ t.scan recogniseAttributedEmbed)
    (hnone : l.embedMeant source h.value = none) :
    l.Free t source h.span ↔ l.Uncovered t source h.span.start ∧
      ∀ i ∈ t.scan recogniseImage, ⟨i.span, l.imageMeant source i.value⟩ ∈ l.rewritten t source →
        ¬(h.span.start + h.value.1.text.length ≤ i.span.start ∧ i.span.start < h.span.stop) := by
  have hlt := (marked_recogniseAttributedEmbed.of_mem_scan hmem).1
  constructor
  · intro hfree
    obtain ⟨hcovered, hinside⟩ := hfree.uncovered hlt
    refine ⟨hcovered, fun i _ hsite hblock => hinside _ hsite ⟨?_, hblock.2⟩⟩
    exact Nat.le_trans (Nat.le_add_right _ _) hblock.1
  · rintro ⟨hcovered, hblock⟩
    refine free_of_uncovered marked_recogniseAttributedEmbed hmem hcovered
      fun site hsite hfence hstarts => ?_
    rcases rewritten_cases hsite with ⟨f, hf, rfl⟩ | ⟨e, he, rfl⟩ | ⟨i, hi, rfl⟩
    · exact hfence f hf rfl
    · exact not_starts_of_rewritten marked_recogniseAttributedEmbed hmem hnone he hsite hstarts
    · exact hblock i hi hsite ⟨le_start_of_mem_scan_image hmem hi hstarts.1, hstarts.2⟩

/-- **When a note image that means no document is left**: no site that is replaced covers its start,
and no embed that is replaced starts in it. -/
theorem free_image_iff {i : Hit (Embed × Text)} (hmem : i ∈ t.scan recogniseImage)
    (hnone : l.imageMeant source i.value = none) :
    l.Free t source i.span ↔ l.Uncovered t source i.span.start ∧
      ∀ e ∈ t.scan recogniseAttributedEmbed,
        ⟨e.span, l.embedMeant source e.value⟩ ∈ l.rewritten t source →
          ¬(i.span.start < e.span.start ∧ e.span.start < i.span.stop) := by
  have hlt := (marked_recogniseImage.of_mem_scan hmem).1
  constructor
  · intro hfree
    obtain ⟨hcovered, hinside⟩ := hfree.uncovered hlt
    exact ⟨hcovered, fun e _ hsite hstarts =>
      hinside _ hsite ⟨Nat.le_of_lt hstarts.1, hstarts.2⟩⟩
  · rintro ⟨hcovered, hembed⟩
    refine free_of_uncovered marked_recogniseImage hmem hcovered
      fun site hsite hfence hstarts => ?_
    rcases rewritten_cases hsite with ⟨f, hf, rfl⟩ | ⟨e, he, rfl⟩ | ⟨other, hother, rfl⟩
    · exact hfence f hf rfl
    · exact hembed e he hsite hstarts
    · exact not_starts_of_rewritten marked_recogniseImage hmem hnone hother hsite hstarts

/-- What is free stands in the new text where it lands. -/
theorem hasAt_of_free (hends : l.PassEnds c source t) {b : Span}
    (hfree : (l.seenThrough c).Free t source b) (hlt : b.start < b.stop) (hle : b.stop ≤ t.length) :
    (l.passText c source t).HasAt (t.landing (l.parts c source t) b.start)
      (t.slice b.start b.stop) := by
  have hlength : b.start + (t.slice b.start b.stop).length = b.stop := by
    rw [Text.length_slice hle]
    omega
  rw [passText_eq hends]
  refine (Text.hasAt_slice t b.start b.stop).splice (fits_parts l c source t) ?_ ?_
  · rw [← List.length_pos_iff]
    omega
  · intro part hpart
    have hspan : part.1 ∈ ((l.seenThrough c).rewritten t source).map (·.span) :=
      parts_spans ▸ List.mem_map_of_mem hpart
    obtain ⟨site, hsite, heq⟩ := List.mem_map.mp hspan
    rw [hlength, ← heq]
    exact hfree site hsite

/-- **The sites of a pass.** A scan keeps sites in bounds, on character boundaries, in order and apart,
and drops no candidate but for one that covers its start. A pass, which ends where all documents that
can be read are finitely many, edits the text at just those kept sites that become something, and
copies all else. An embed with its attribute block, or a note image, that means no document is left
verbatim if no site that is replaced meets it: for an embed, when none covers its start and no note
image starts in its attribute block; for a note image, when none covers its start and no embed starts
in it. -/
theorem kept_sites_rewritten (l : Lowering) (c : Cache) (t : Text) (source : DocumentId) :
    let view := l.seenThrough c
    let sites := view.sitesIn t source
    let parts := l.parts c source t
    let out := l.passText c source t
    ((l.scan t source c).1 = sites ∧ KeepsApart t (view.candidates t source) sites) ∧
    (l.resolver.collection.readable.Finite → l.PassEnds c source t) ∧
    (l.PassEnds c source t → parts.map (·.1) =
        (sites.filter (·.construct.isSome)).map (·.span) ∧ Text.Edited 0 t parts out) ∧
    (∀ h ∈ t.scan recogniseAttributedEmbed, view.embedMeant source h.value = none →
      (view.Free t source h.span ↔ view.Uncovered t source h.span.start ∧
        ∀ i ∈ t.scan recogniseImage,
          ⟨i.span, view.imageMeant source i.value⟩ ∈ view.rewritten t source →
            ¬(h.span.start + h.value.1.text.length ≤ i.span.start ∧
              i.span.start < h.span.stop)) ∧
      (l.PassEnds c source t → view.Free t source h.span →
        out.HasAt (t.landing parts h.span.start) (attributedText h.value))) ∧
    (∀ i ∈ t.scan recogniseImage, view.imageMeant source i.value = none →
      (view.Free t source i.span ↔ view.Uncovered t source i.span.start ∧
        ∀ h ∈ t.scan recogniseAttributedEmbed,
          ⟨h.span, view.embedMeant source h.value⟩ ∈ view.rewritten t source →
            ¬(i.span.start < h.span.start ∧ h.span.start < i.span.stop)) ∧
      (l.PassEnds c source t → view.Free t source i.span →
        out.HasAt (t.landing parts i.span.start) (t.slice i.span.start i.span.stop))) := by
  refine ⟨⟨(l.readsThrough_scan t source).result c, keepsApart_sitesIn _ t source⟩,
    fun hfin => Weaver.weave?_isSome l.finds_lowerer
      (Collection.finite_readable_seenThrough hfin c) t source [source] rfl,
    fun hends => ⟨parts_spans, (Text.edited_iff (fits_parts l c source t)).mpr (passText_eq hends)⟩,
    fun h hmem hnone => ⟨free_embed_iff hmem hnone, fun hends hfree => ?_⟩,
    fun i hmem hnone => ⟨free_image_iff hmem hnone, fun hends hfree => ?_⟩⟩
  · obtain ⟨hlt, hle, -⟩ := marked_recogniseAttributedEmbed.of_mem_scan hmem
    obtain ⟨hstands, hstop, -⟩ := hasAt_attributedText hmem
    have hthere := hasAt_of_free hends hfree hlt hle
    rwa [hstop, hstands.slice_eq] at hthere
  · obtain ⟨hlt, hle, -⟩ := marked_recogniseImage.of_mem_scan hmem
    exact hasAt_of_free hends hfree hlt hle

end Lowering

/-- A note with one character. -/
def shortVault : MemoryVault := ⟨[(.ofPath "n.md".toList, "N".toList)], []⟩

/-- Lowering for that collection, without a width for pictures. -/
def shortLowering : Lowering := Lowering.of shortVault.toCollection { scaleImages := false } true

/-- An embed of a note that is not there, with an attribute block in front of an image of the note. -/
def besideText : Text := "![[gone]]{#a} ![x](n.md)".toList

/-- The embed with its attribute block. -/
def besideEmbed : Hit (Embed × Option Text) := ⟨⟨0, 13⟩, ⟨[], "gone".toList⟩, some "#a".toList⟩

/-- An embed beside a note image is left. -/
theorem kept_sites_rewritten_beside :
    besideEmbed ∈ besideText.scan recogniseAttributedEmbed ∧
    (shortLowering.seenThrough .empty).embedMeant (.ofPath "main.md".toList) besideEmbed.value =
      none ∧
    (shortLowering.seenThrough .empty).Free besideText (.ofPath "main.md".toList)
      besideEmbed.span ∧
    (shortLowering.passText .empty (.ofPath "main.md".toList) besideText).HasAt
      (besideText.landing (shortLowering.parts .empty (.ofPath "main.md".toList) besideText) 0)
      "![[gone]]{#a}".toList := by
  have hmem : besideEmbed ∈ besideText.scan recogniseAttributedEmbed := by decide +kernel
  have hnone : (shortLowering.seenThrough .empty).embedMeant (.ofPath "main.md".toList)
      besideEmbed.value = none := by
    rw [Lowering.seenThrough_empty]
    decide +kernel
  have hrewritten : (shortLowering.seenThrough .empty).rewritten besideText
      (.ofPath "main.md".toList) = [⟨⟨14, 24⟩, some (.note [] (.ofPath "n.md".toList)
        (some "x".toList) .whole)⟩] := by
    rw [Lowering.seenThrough_empty]
    decide +kernel
  have hfree : (shortLowering.seenThrough .empty).Free besideText (.ofPath "main.md".toList)
      besideEmbed.span := by
    intro site hsite
    rw [hrewritten, List.mem_singleton] at hsite
    subst hsite
    exact .inr (by decide)
  have hkept := Lowering.kept_sites_rewritten shortLowering .empty besideText
    (.ofPath "main.md".toList)
  exact ⟨hmem, hnone, hfree, (hkept.2.2.2.1 besideEmbed hmem hnone).2
    (hkept.2.1 shortVault.finite_readable) hfree⟩

/-! ### An attribute block that is rewritten -/

/-- An embed of a note that is not there, with an image of the note in its attribute block. -/
def blockText : Text := "![[gone]]{![x](n.md)}".toList

/-- The embed with its attribute block. -/
def blockEmbed : Hit (Embed × Option Text) :=
  ⟨⟨0, 21⟩, ⟨[], "gone".toList⟩, some "![x](n.md)".toList⟩

/-- The image of the note. -/
def blockSite : LoweringSite :=
  ⟨⟨10, 20⟩, some (.note [] (.ofPath "n.md".toList) (some "x".toList) .whole)⟩

theorem sitesIn_blockText : (shortLowering.seenThrough .empty).sitesIn blockText
    (.ofPath "main.md".toList) = [blockSite] := by
  rw [Lowering.seenThrough_empty]
  decide

theorem passText_blockText :
    shortLowering.passText .empty (.ofPath "main.md".toList) blockText = "![[gone]]{N}".toList := by
  have hends : shortLowering.PassEnds .empty (.ofPath "main.md".toList) blockText :=
    Lowering.passEnds_of_vault shortVault _ _ _ _ _
  have hgranted : shortLowering.lowerer.answer [.ofPath "main.md".toList] blockSite
      (shortLowering.resolver.collection.seenThrough .empty) =
        .ok (.ofPath "n.md".toList, "N".toList) := by
    rw [Collection.seenThrough_empty]
    exact Weaver.answer_eq_ok_iff.mpr
      ⟨.whole, "N".toList, rfl, by decide, by decide, by decide⟩
  have hinner : (shortLowering.lowerer.weave "N".toList (.ofPath "n.md".toList)
      [.ofPath "n.md".toList, .ofPath "main.md".toList] .empty).1.text = "N".toList := by
    rw [Lowering.weave_text (Lowering.isSome_weave?_of_granted hends
        (by rw [sitesIn_blockText]; exact List.mem_singleton_self _) hgranted),
      Lowering.fills, Lowering.seenThrough_empty,
      show shortLowering.sitesIn "N".toList (.ofPath "n.md".toList) = [] by decide]
    rfl
  rw [Lowering.passText_eq hends, Lowering.parts, sitesIn_blockText,
    List.filterMap_cons_some (by rw [Lowering.filled_of_granted hgranted, hinner]; rfl)]
  rfl

/-- **The attribute block of an embed that means nothing can be rewritten.** The embed lies in no
site that the pass replaces, and yet it is not left as it is written. -/
theorem attributes_rewritten :
    blockEmbed ∈ blockText.scan recogniseAttributedEmbed ∧
    attributedText blockEmbed.value = blockText ∧
    (shortLowering.seenThrough .empty).embedMeant (.ofPath "main.md".toList) blockEmbed.value =
      none ∧
    (∀ site ∈ (shortLowering.seenThrough .empty).rewritten blockText (.ofPath "main.md".toList),
      ¬(site.span.start ≤ blockEmbed.span.start ∧ blockEmbed.span.stop ≤ site.span.stop)) ∧
    (shortLowering.pass .empty blockText (.ofPath "main.md".toList)).1 = "![[gone]]{N}".toList ∧
    ¬Text.occursIn (attributedText blockEmbed.value)
      (shortLowering.pass .empty blockText (.ofPath "main.md".toList)).1 := by
  have htext : (shortLowering.pass .empty blockText (.ofPath "main.md".toList)).1 =
      "![[gone]]{N}".toList := passText_blockText
  refine ⟨by decide +kernel, by decide +kernel, ?_, ?_, htext, ?_⟩
  · rw [Lowering.seenThrough_empty]
    decide +kernel
  · unfold Lowering.rewritten
    rw [sitesIn_blockText]
    decide +kernel
  · rw [htext]
    decide +kernel

end NotePress
