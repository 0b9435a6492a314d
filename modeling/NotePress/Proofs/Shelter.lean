import NotePress.Proofs.Arrangement
import NotePress.Proofs.Fencing
import NotePress.Proofs.Reading

/-!
# What a pass leaves alone

A pass replaces the sites that it keeps. A part of the text is spared (`Lowering.Spares`) if none of
these meets it, or the one that does is a fence that becomes a listing and has the part in its
inside, which the listing takes over. `Lowering.Shelters` says the same of the text as it stands,
and `Lowering.spares_iff_shelters` that it does so for parts that begin with a line break: embeds
and images that mean a document may meet such a part in a fence only, and a fence that becomes a
listing only from around it.

The insides of the fences of a text are always spared by the next pass (`Lowering.shelters_inside`).
-/

namespace NotePress

namespace Lowering

/-- A fence that becomes a listing has a part of the text in its inside. -/
def holds (l : Lowering) (t : Text) (b : Span) (f : Fence) : Bool :=
  (l.constructOfFence f).isSome && (f.inside t).start ≤ b.start && b.stop ≤ (f.inside t).stop

/-- The site of a fence. -/
def fenceSite (l : Lowering) (f : Fence) : LoweringSite := ⟨f.span, l.constructOfFence f⟩

/-- **A pass spares a part of a text.** -/
def Spares (l : Lowering) (t : Text) (source : DocumentId) (b : Span) : Prop :=
  ∀ site ∈ l.sitesIn t source, site.construct.isSome → site.span.Apart b ∨
    ∃ f ∈ t.fences, site = l.fenceSite f ∧ l.holds t b f

/-- **A part of a text is sheltered** from the next pass. -/
structure Shelters (l : Lowering) (t : Text) (source : DocumentId) (b : Span) : Prop where
  embeds : ∀ h ∈ t.scan recogniseAttributedEmbed, (l.embedMeant source h.value).isSome →
    ¬h.span.Apart b → isFenced t.fences h.span.start
  images : ∀ h ∈ t.scan recogniseImage, (l.imageMeant source h.value).isSome →
    ¬h.span.Apart b → isFenced t.fences h.span.start
  fences : ∀ f ∈ t.fences, (l.constructOfFence f).isSome → ¬f.span.Apart b → l.holds t b f

variable {l : Lowering} {t : Text} {source : DocumentId} {b : Span}

theorem isFenced_iff {p : Nat} :
    isFenced t.fences p ↔ ∃ f ∈ t.fences, f.span.start ≤ p ∧ p < f.span.stop := by
  simp [isFenced, Span.contains]

/-! ### Sites of a text -/

/-- The site of an embed or image: on one line, not reaching into a fence from in front of it. -/
structure Loose (t : Text) (site : LoweringSite) : Prop where
  construct : site.construct.isSome
  lt : site.span.start < site.span.stop
  le_length : site.span.stop ≤ t.length
  line : '\n' ∉ t.slice site.span.start site.span.stop
  fences : ∀ f ∈ t.fences, f.span.start < site.span.start ∨ site.span.stop ≤ f.span.start

theorem mem_sitesMeant {α : Type} {meant : α → Option Construct} {hits : List (Hit α)} {h : Hit α}
    (hmem : h ∈ hits) (hmeant : (meant h.value).isSome) :
    (⟨h.span, meant h.value⟩ : LoweringSite) ∈ sitesMeant meant hits := by
  obtain ⟨construct, hconstruct⟩ := Option.isSome_iff_exists.mp hmeant
  exact List.mem_filterMap.mpr ⟨h, hmem, by rw [hconstruct]; rfl⟩

theorem loose_of_mem_sitesMeant {α : Type} {recognise : Recogniser α} (hmarked : recognise.Marked)
    {meant : α → Option Construct} {site : LoweringSite}
    (h : site ∈ sitesMeant meant (t.scan recognise)) : Loose t site := by
  obtain ⟨hit, hmem, he⟩ := List.mem_filterMap.mp h
  obtain ⟨construct, -, rfl⟩ := Option.map_eq_some_iff.mp he
  obtain ⟨hlt, hle, hline⟩ := hmarked.of_mem_scan hmem
  exact ⟨rfl, hlt, hle, hline, fun f hf =>
    (Text.stands_of_mem_fences hf).not_reached hmarked hmem⟩

/-- A site is that of a fence, or that of an embed or image. -/
theorem mem_candidates {site : LoweringSite} (h : site ∈ l.candidates t source) :
    (∃ f ∈ t.fences, site = l.fenceSite f) ∨ Loose t site := by
  rcases List.mem_append.mp h with h | h
  · rcases List.mem_append.mp h with h | h
    · obtain ⟨f, hf, rfl⟩ := List.mem_map.mp h
      exact .inl ⟨f, hf, rfl⟩
    · exact .inr (loose_of_mem_sitesMeant marked_recogniseAttributedEmbed h)
  · exact .inr (loose_of_mem_sitesMeant marked_recogniseImage h)

theorem candidate_lt {site : LoweringSite} (h : site ∈ l.candidates t source) :
    site.span.start < site.span.stop ∧ site.span.stop ≤ t.length := by
  rcases mem_candidates h with ⟨f, hf, rfl⟩ | hloose
  · have hstands := Text.stands_of_mem_fences hf
    exact ⟨hstands.lt, hstands.stop_le_length⟩
  · exact ⟨hloose.lt, hloose.le_length⟩

/-- **The sites of a text are apart.** -/
theorem sitesIn_pairwise (l : Lowering) (t : Text) (source : DocumentId) :
    (l.sitesIn t source).Pairwise fun a b => a.span.stop ≤ b.span.start :=
  arrange_pairwise fun _ hsite => (candidate_lt hsite).1

/-- **Fences always count.** -/
theorem fenceSite_mem_sitesIn (l : Lowering) (source : DocumentId) {f : Fence}
    (hf : f ∈ t.fences) : l.fenceSite f ∈ l.sitesIn t source := by
  have hcandidate : l.fenceSite f ∈ l.candidates t source :=
    List.mem_append_left _ (List.mem_append_left _ (List.mem_map_of_mem hf))
  have hlt := (candidate_lt hcandidate).1
  refine mem_arrange hcandidate fun other hother => ?_
  rcases mem_candidates hother with ⟨f', hf', rfl⟩ | hloose
  · by_cases hmeet : f.span.Apart f'.span
    · rcases hmeet with hstop | hstop
      · exact .inr (.inl (Nat.lt_of_lt_of_le hlt hstop))
      · exact .inr (.inr hstop)
    · rw [Text.eq_of_fences_meet hf hf' hmeet]
      exact .inl rfl
  · exact .inr (hloose.fences f hf)

/-- A site that counts and starts in a fence is that of the fence. -/
theorem eq_fenceSite {site : LoweringSite} (hsite : site ∈ l.sitesIn t source) {f : Fence}
    (hf : f ∈ t.fences) (hmeet : ¬site.span.Apart f.span) : site = l.fenceSite f := by
  by_contra hne
  exact hmeet (Span.apart_of_pairwise (sitesIn_pairwise l t source) hsite
    (fenceSite_mem_sitesIn l source hf) hne)

theorem Loose.ne_fenceSite {site : LoweringSite} (h : Loose t site) {f : Fence}
    (hf : f ∈ t.fences) : site ≠ l.fenceSite f := by
  rintro rfl
  have hlt := h.lt
  rcases h.fences f hf with hstart | hstop
  · exact absurd hstart (Nat.lt_irrefl _)
  · exact absurd hstop (Nat.not_le.mpr hlt)

/-- Where an embed or image meets a part that begins with a line break, it starts in it. -/
theorem Loose.start_lt {site : LoweringSite} (h : Loose t site) (hbreak : t[b.start]? = some '\n')
    (hstop : b.start < site.span.stop) : b.start < site.span.start := by
  by_contra hle
  exact h.line (Text.mem_slice hbreak (Nat.not_lt.mp hle) hstop)

/-! ### Spared and sheltered -/

/-- What counts against sparing a part is not dropped for something that does not, unless it is in a
fence. -/
theorem isFenced_of_spares (hbreak : t[b.start]? = some '\n') (hspares : l.Spares t source b)
    {site : LoweringSite} (hsite : site ∈ l.candidates t source) (hloose : Loose t site)
    (hmeet : ¬site.span.Apart b) : isFenced t.fences site.span.start := by
  unfold Span.Apart at hmeet
  rw [not_or, Nat.not_le, Nat.not_le] at hmeet
  have hstart := hloose.start_lt hbreak hmeet.1
  rcases mem_arrange_or hsite with hkept | ⟨kept, hkept, hcovers⟩
  · rcases hspares site hkept hloose.construct with happart | ⟨f, hf, rfl, -⟩
    · unfold Span.Apart at happart
      omega
    · exact absurd rfl (hloose.ne_fenceSite hf)
  · rcases mem_candidates (mem_of_mem_arrange hkept) with ⟨f, hf, rfl⟩ | hkeptLoose
    · exact isFenced_iff.mpr ⟨f, hf, hcovers⟩
    · have hkeptStart := hkeptLoose.start_lt hbreak (by omega)
      rcases hspares kept hkept hkeptLoose.construct with happart | ⟨f, hf, rfl, -⟩
      · unfold Span.Apart at happart
        omega
      · exact absurd rfl (hkeptLoose.ne_fenceSite hf)

/-- **What a pass spares**, said of the text as it stands. -/
theorem spares_iff_shelters (hbreak : t[b.start]? = some '\n') :
    l.Spares t source b ↔ l.Shelters t source b := by
  constructor
  · intro hspares
    refine ⟨fun h hmem hmeant hmeet => ?_, fun h hmem hmeant hmeet => ?_,
      fun f hf hconstruct hmeet => ?_⟩
    · have hsite := mem_sitesMeant hmem hmeant
      exact isFenced_of_spares hbreak hspares
        (List.mem_append_left _ (List.mem_append_right _ hsite))
        (loose_of_mem_sitesMeant marked_recogniseAttributedEmbed hsite) hmeet
    · have hsite := mem_sitesMeant hmem hmeant
      exact isFenced_of_spares hbreak hspares (List.mem_append_right _ hsite)
        (loose_of_mem_sitesMeant marked_recogniseImage hsite) hmeet
    · rcases hspares (l.fenceSite f) (fenceSite_mem_sitesIn l source hf) hconstruct with
        hapart | ⟨f', hf', heq, hholds⟩
      · exact absurd hapart hmeet
      · have hlt := (candidate_lt (mem_of_mem_arrange (fenceSite_mem_sitesIn l source hf))).1
        have hspan : f.span = f'.span := congrArg LoweringSite.span heq
        have hlt : f.span.start < f.span.stop := hlt
        rw [Text.eq_of_fences_meet hf hf' (by unfold Span.Apart; rw [← hspan]; omega)]
        exact hholds
  · intro hshelters site hsite hconstruct
    by_cases hapart : site.span.Apart b
    · exact .inl hapart
    -- A site that meets the part and starts in a fence is that of the fence, so it is no embed.
    have hnotFenced : Loose t site → ¬isFenced t.fences site.span.start := by
      intro hloose hfenced
      obtain ⟨f, hf, hstart, hstop⟩ := isFenced_iff.mp hfenced
      refine hloose.ne_fenceSite hf (eq_fenceSite hsite hf ?_)
      have := hloose.lt
      unfold Span.Apart
      omega
    rcases List.mem_append.mp (mem_of_mem_arrange hsite) with hmem | hmem
    · rcases List.mem_append.mp hmem with hmem | hmem
      · obtain ⟨f, hf, rfl⟩ := List.mem_map.mp hmem
        exact .inr ⟨f, hf, rfl, hshelters.fences f hf hconstruct hapart⟩
      · have hloose := loose_of_mem_sitesMeant marked_recogniseAttributedEmbed hmem
        obtain ⟨h, hhit, he⟩ := List.mem_filterMap.mp hmem
        obtain ⟨construct, hmeant, rfl⟩ := Option.map_eq_some_iff.mp he
        exact absurd (hshelters.embeds h hhit (by rw [hmeant]; rfl) hapart) (hnotFenced hloose)
    · have hloose := loose_of_mem_sitesMeant marked_recogniseImage hmem
      obtain ⟨h, hhit, he⟩ := List.mem_filterMap.mp hmem
      obtain ⟨construct, hmeant, rfl⟩ := Option.map_eq_some_iff.mp he
      exact absurd (hshelters.images h hhit (by rw [hmeant]; rfl) hapart) (hnotFenced hloose)

/-- A fence begins its inside with a line break. -/
theorem getElem?_inside {f : Fence} (hf : f ∈ t.fences) : t[(f.inside t).start]? = some '\n' := by
  obtain ⟨back, hback⟩ := (Text.stands_of_mem_fences hf).inside
  rw [← Nat.add_zero (f.inside t).start, ← List.getElem?_drop, ← hback]
  rfl

/-- **The next pass spares the insides of fences.** -/
theorem shelters_inside (l : Lowering) (source : DocumentId) {f : Fence} (hf : f ∈ t.fences) :
    l.Shelters t source (f.inside t) := by
  have hstands := Text.stands_of_mem_fences hf
  have hstart := hstands.start_lt
  have hstop := hstands.stop_le
  have hfenced : ∀ {site : LoweringSite}, Loose t site → ¬site.span.Apart (f.inside t) →
      isFenced t.fences site.span.start := by
    intro site hloose hmeet
    unfold Span.Apart at hmeet
    rw [not_or, Nat.not_le, Nat.not_le] at hmeet
    have := hloose.start_lt (getElem?_inside hf) hmeet.1
    exact isFenced_iff.mpr ⟨f, hf, by omega, by omega⟩
  refine ⟨fun h hmem hmeant => ?_, fun h hmem hmeant => ?_, fun f' hf' hconstruct hmeet => ?_⟩
  · exact hfenced
      (loose_of_mem_sitesMeant marked_recogniseAttributedEmbed (mem_sitesMeant hmem hmeant))
  · exact hfenced (loose_of_mem_sitesMeant marked_recogniseImage (mem_sitesMeant hmem hmeant))
  · have heq : f' = f := by
      refine Text.eq_of_fences_meet hf' hf fun hapart => hmeet ?_
      unfold Span.Apart at *
      omega
    subst heq
    simp [holds, hconstruct]

end Lowering

end NotePress
