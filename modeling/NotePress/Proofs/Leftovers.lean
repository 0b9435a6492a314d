import NotePress.Proofs.Copying
import NotePress.Proofs.Passes

/-!
# Embeds that a pass leaves as they are

A pass of the lowering brings notes in, and leaves an embed of such a note as it is written when its
reference means no document, with the note as the linking document. `Lowering.Leaves` follows such
an embed on its way up and says where it stands after the pass; different ones stand apart.

The passes behind the first one start from the text that came in, with the text's own document as
the linking one. `leftovers_stay_iff` says when they leave the embed where it is: just when none of
them finds it with a meaning it has there, and none takes in what is around it. That is not always
so (`leftover_lost`).
-/

namespace NotePress

/-! ### Blocks of a spliced text -/

namespace Text

/-- In a spliced text, `new` stands as a whole for the part `s`: it replaces the part, or is what
stood there and no replacement meets it. -/
def Lands (t : Text) (parts : List (Span × Text)) (s : Span) (new : Text) : Prop :=
  (s, new) ∈ parts ∨ t.HasAt s.start new ∧ new ≠ [] ∧ s.stop = s.start + new.length ∧
    ∀ part ∈ parts, part.1.Apart s

variable {t : Text} {parts : List (Span × Text)}

/-- What stands for a part stands in the spliced text. -/
theorem Lands.hasAt (hfits : t.Fits (parts.map (·.1))) {s : Span} {new : Text}
    (h : t.Lands parts s new) : (t.splice parts).HasAt (t.landing parts s.start) new := by
  rcases h with hmem | ⟨hstands, hnew, hstop, hapart⟩
  · exact hasAt_splice_of_mem hfits hmem
  · exact hstands.splice hfits hnew fun part hpart => hstop ▸ hapart part hpart

/-- What stands for a part lands in front of what is behind the part. -/
theorem Lands.add_length_le (hfits : t.Fits (parts.map (·.1))) {s : Span} {new : Text}
    (h : t.Lands parts s new) {q : Nat} (hq : s.stop ≤ q) :
    t.landing parts s.start + new.length ≤ t.landing parts q := by
  rcases h with hmem | ⟨hstands, hnew, hstop, hapart⟩
  · exact landing_add_new_length_le hfits hmem hq
  · refine landing_add_length_le hfits hstands hnew (fun part hpart => ?_) (hstop ▸ hq)
    exact hstop ▸ hapart part hpart

/-- What stands for parts that are apart is apart, and so is what lies within. -/
theorem Lands.apart (hfits : t.Fits (parts.map (·.1))) {s₁ s₂ b₁ b₂ : Span} {new₁ new₂ : Text}
    (h₁ : t.Lands parts s₁ new₁) (h₂ : t.Lands parts s₂ new₂) (hapart : s₁.Apart s₂)
    (hb₁ : t.landing parts s₁.start ≤ b₁.start ∧
      b₁.stop ≤ t.landing parts s₁.start + new₁.length)
    (hb₂ : t.landing parts s₂.start ≤ b₂.start ∧
      b₂.stop ≤ t.landing parts s₂.start + new₂.length) : b₁.Apart b₂ := by
  unfold Span.Apart at *
  rcases hapart with hstop | hstop
  · have := h₁.add_length_le hfits hstop
    omega
  · have := h₂.add_length_le hfits hstop
    omega

end Text

/-! ### Quoting -/

theorem quoteInserted_eq_quoteLines (quote : Text) {t : Text} (ht : t ≠ []) :
    quoteInserted quote t = quoteLines quote t := by
  cases quote with
  | nil => cases t <;> rfl
  | cons q qs =>
    cases t with
    | nil => exact absurd rfl ht
    | cons c cs => rfl

/-- A piece on one line stands in a text with quoted lines. -/
theorem hasAt_quoteLines {quote t piece : Text} {p : Nat} (h : t.HasAt p piece)
    (hpiece : piece ≠ []) (hline : '\n' ∉ piece) :
    (quoteLines quote t).HasAt (quotedAt quote t p) piece := by
  have ht : t ≠ [] := by
    rintro rfl
    have hlength := h.length_le hpiece
    have := List.length_pos_iff.mpr hpiece
    simp only [List.length_nil] at hlength
    omega
  rw [← quoteInserted_eq_quoteLines quote ht]
  exact hasAt_quoteInserted h hpiece hline

/-- Quoting keeps pieces in order. -/
theorem quotedAt_add_le (quote t : Text) {p q n : Nat} (h : p + n ≤ q) :
    quotedAt quote t p + n ≤ quotedAt quote t q := by
  unfold quotedAt
  split
  · exact h
  · have hcount : (t.take p).count '\n' ≤ (t.take q).count '\n' := by
      rw [show t.take p = (t.take q).take p by rw [List.take_take, Nat.min_eq_left (by omega)]]
      exact (List.take_sublist _ _).count_le _
    have := Nat.mul_le_mul_left quote.length (Nat.add_le_add_right hcount 1)
    omega

/-- The quote prefix of a place that a note comes into. -/
def LoweringSite.quote (site : LoweringSite) : Text :=
  match site.construct with
  | some (.note quote _ _ _) => quote
  | _ => []

theorem LoweringSite.frame_eq (site : LoweringSite) (t : Text) :
    site.frame t = quoteLines site.quote t := by
  unfold frame quote
  cases site.construct with
  | none => rfl
  | some construct => cases construct <;> rfl

namespace Lowering

variable {l : Lowering} {c : Cache}

/-- The document that an embed with some inside means in `source`. -/
def documentMeant (l : Lowering) (source : DocumentId) (inner : Text) : Option DocumentId :=
  (Reference.parse? inner).bind (l.resolver.meaning · source)

/-- An embed becomes something when it means a document. -/
theorem isSome_embedMeant {source : DocumentId} {e : Embed × Option Text} :
    (l.embedMeant source e).isSome = (l.documentMeant source e.1.inner).isSome := by
  unfold embedMeant documentMeant
  cases Reference.parse? e.1.inner with
  | none => rfl
  | some reference => simp

/-! ### What weaving puts in -/

/-- What takes the place of sites of a text on the way down. -/
def fills (l : Lowering) (c : Cache) (t : Text) (source : DocumentId)
    (visited : List DocumentId) : List (Span × Text) :=
  ((l.seenThrough c).sitesIn t source).filterMap fun site =>
    (l.lowerer.filled c source visited site).1.map (site.span, ·)

theorem weave_text {t : Text} {source : DocumentId} {visited : List DocumentId}
    (h : (l.lowerer.weave? t source visited c).isSome) :
    (l.lowerer.weave t source visited c).1.text = t.splice (l.fills c t source visited) := by
  rw [(Weaver.weave_eq l.finds_lowerer h).1]
  rfl

theorem fits_fills (l : Lowering) (c : Cache) (t : Text) (source : DocumentId)
    (visited : List DocumentId) : t.Fits ((l.fills c t source visited).map (·.1)) :=
  Text.fits_filterMap (sitesIn_pairwise (l.seenThrough c) t source) fun _ hsite =>
    candidate_lt (mem_of_mem_arrange hsite)

theorem exists_site_of_mem_fills {t : Text} {source : DocumentId} {visited : List DocumentId}
    {part : Span × Text} (h : part ∈ l.fills c t source visited) :
    ∃ site ∈ (l.seenThrough c).sitesIn t source, site.construct.isSome ∧ part.1 = site.span := by
  obtain ⟨site, hsite, he⟩ := List.mem_filterMap.mp h
  obtain ⟨new, hnew, rfl⟩ := Option.map_eq_some_iff.mp he
  refine ⟨site, hsite, ?_, rfl⟩
  cases hconstruct : site.construct with
  | some construct => rfl
  | none =>
    rw [filled_of_construct_eq_none hconstruct] at hnew
    cases hnew

/-- A site into which no note is brought is rendered. -/
theorem mem_fills {t : Text} {source : DocumentId} {visited : List DocumentId}
    {site : LoweringSite} {construct : Construct}
    (hsite : site ∈ (l.seenThrough c).sitesIn t source) (h : site.construct = some construct)
    (hasks : site.asks = none) : (site.span, l.render construct) ∈ l.fills c t source visited :=
  List.mem_filterMap.mpr ⟨site, hsite, by rw [filled_of_asks_eq_none h hasks]; rfl⟩

/-- What fills a site stands in the text where the site lands. -/
theorem hasAt_of_mem_fills {t new : Text} {source : DocumentId} {visited : List DocumentId}
    {span : Span} (hends : (l.lowerer.weave? t source visited c).isSome)
    (hmem : (span, new) ∈ l.fills c t source visited) :
    (l.lowerer.weave t source visited c).1.text.HasAt
      (t.landing (l.fills c t source visited) span.start) new := by
  rw [weave_text hends]
  exact Text.hasAt_splice_of_mem (fits_fills l c t source visited) hmem

/-- A note that is granted comes in with its lines quoted. -/
theorem filled_of_granted {content : Text} {source target : DocumentId}
    {visited : List DocumentId} {site : LoweringSite}
    (hgranted : l.lowerer.answer visited site (l.resolver.collection.seenThrough c) =
      .ok (target, content)) :
    (l.lowerer.filled c source visited site).1 = some (quoteLines site.quote
      (l.lowerer.weave content target (target :: visited) c).1.text) := by
  have hframe := site.frame_eq (l.lowerer.weave content target (target :: visited) c).1.text
  unfold Weaver.filled
  rw [show l.lowerer.collection = l.resolver.collection from rfl, hgranted, ← hframe]
  rfl

theorem mem_fills_of_granted {t content : Text} {source target : DocumentId}
    {visited : List DocumentId} {site : LoweringSite}
    (hsite : site ∈ (l.seenThrough c).sitesIn t source)
    (hgranted : l.lowerer.answer visited site (l.resolver.collection.seenThrough c) =
      .ok (target, content)) :
    (site.span, quoteLines site.quote
      (l.lowerer.weave content target (target :: visited) c).1.text) ∈
        l.fills c t source visited := by
  refine List.mem_filterMap.mpr ⟨site, hsite, ?_⟩
  rw [filled_of_granted hgranted]
  rfl

/-- A site that asks for a note is that of a construct. -/
theorem construct_of_granted {site : LoweringSite} {visited : List DocumentId} {g : Collection}
    {target : DocumentId} {content : Text}
    (h : l.lowerer.answer visited site g = .ok (target, content)) : site.construct.isSome := by
  obtain ⟨part, raw, hasks, -⟩ := Weaver.answer_eq_ok_iff.mp h
  cases hconstruct : site.construct with
  | some construct => rfl
  | none => simp [lowerer, LoweringSite.asks, hconstruct] at hasks

/-! ### What is left -/

/-- An embed that a pass leaves as it is, in a note that the pass brings in or in the text itself:
the sites on the way to it, the document it stands in, and where it stands in the new text. It means
no document there, and nothing that the pass replaces meets it. -/
inductive Leaves (l : Lowering) (c : Cache) : Text → List DocumentId → List LoweringSite →
    DocumentId → Hit (Embed × Option Text) → Nat → Prop where
  | here {t : Text} {source : DocumentId} {above : List DocumentId}
      {h : Hit (Embed × Option Text)} (hhit : h ∈ t.scan recogniseAttributedEmbed)
      (hmeans : (l.seenThrough c).documentMeant source h.value.1.inner = none)
      (hfree : ∀ site ∈ (l.seenThrough c).sitesIn t source, site.construct.isSome →
        site.span.Apart h.span) :
      Leaves l c t (source :: above) [] source h
        (t.landing (l.fills c t source (source :: above)) h.span.start)
  | down {t content : Text} {source target d : DocumentId} {above : List DocumentId}
      {site : LoweringSite} {path : List LoweringSite} {h : Hit (Embed × Option Text)} {p : Nat}
      (hsite : site ∈ (l.seenThrough c).sitesIn t source)
      (hgranted : l.lowerer.answer (source :: above) site (l.resolver.collection.seenThrough c) =
        .ok (target, content))
      (rest : Leaves l c content (target :: source :: above) path d h p) :
      Leaves l c t (source :: above) (site :: path) d h
        (t.landing (l.fills c t source (source :: above)) site.span.start + quotedAt site.quote
          (l.lowerer.weave content target (target :: source :: above) c).1.text p)

variable {t : Text} {chain : List DocumentId} {path : List LoweringSite} {d : DocumentId}
  {h : Hit (Embed × Option Text)} {p : Nat}

/-- What is brought in is woven, if the text is. -/
theorem isSome_weave?_of_granted {content : Text} {source target : DocumentId}
    {visited : List DocumentId} {site : LoweringSite}
    (hends : (l.lowerer.weave? t source visited c).isSome)
    (hsite : site ∈ (l.seenThrough c).sitesIn t source)
    (hgranted : l.lowerer.answer visited site (l.resolver.collection.seenThrough c) =
      .ok (target, content)) :
    (l.lowerer.weave? content target (target :: visited) c).isSome :=
  (Weaver.weave_eq l.finds_lowerer hends).2 site hsite target content hgranted

/-- An embed that is left is an embed on one line. -/
theorem Leaves.line (hleft : l.Leaves c t chain path d h p) :
    '\n' ∉ attributedText h.value ∧ IsInner h.value.1.inner := by
  induction hleft with
  | here hhit _ _ =>
    obtain ⟨-, -, hline, hinner⟩ := hasAt_attributedText hhit
    exact ⟨hline, hinner⟩
  | down _ _ _ ih => exact ih

/-- An embed that the pass replaces nothing at stands for itself. -/
theorem lands_of_free {source : DocumentId} {visited : List DocumentId}
    (hhit : h ∈ t.scan recogniseAttributedEmbed)
    (hfree : ∀ site ∈ (l.seenThrough c).sitesIn t source, site.construct.isSome →
      site.span.Apart h.span) :
    t.Lands (l.fills c t source visited) h.span (attributedText h.value) := by
  obtain ⟨hstands, hstop, -, -⟩ := hasAt_attributedText hhit
  refine .inr ⟨hstands, attributedText_ne_nil _, hstop, fun part hpart => ?_⟩
  obtain ⟨site, hsite, hconstruct, heq⟩ := exists_site_of_mem_fills hpart
  exact heq ▸ hfree site hsite hconstruct

/-- A note that is granted stands for its site, with its lines quoted. -/
theorem lands_of_granted {content : Text} {source target : DocumentId}
    {visited : List DocumentId} {site : LoweringSite}
    (hsite : site ∈ (l.seenThrough c).sitesIn t source)
    (hgranted : l.lowerer.answer visited site (l.resolver.collection.seenThrough c) =
      .ok (target, content)) :
    t.Lands (l.fills c t source visited) site.span (quoteLines site.quote
      (l.lowerer.weave content target (target :: visited) c).1.text) :=
  .inl (mem_fills_of_granted hsite hgranted)

/-- **An embed that a pass leaves stands in the new text**, as it is written in its note. -/
theorem Leaves.hasAt (hleft : l.Leaves c t chain path d h p) : ∀ source above,
    chain = source :: above → (l.lowerer.weave? t source chain c).isSome →
      (l.lowerer.weave t source chain c).1.text.HasAt p (attributedText h.value) := by
  induction hleft with
  | @here t source above h hhit _ hfree =>
    rintro _ _ ⟨⟩ hends
    rw [weave_text hends]
    exact (lands_of_free hhit hfree).hasAt (fits_fills l c t source _)
  | @down t content source target d above site path h p hsite hgranted rest ih =>
    rintro _ _ ⟨⟩ hends
    have hinner := ih _ _ rfl (isSome_weave?_of_granted hends hsite hgranted)
    rw [weave_text hends]
    exact ((lands_of_granted hsite hgranted).hasAt (fits_fills l c t source _)).inner
      (hasAt_quoteLines hinner (attributedText_ne_nil _) rest.line.1)

/-- An embed that stands at `p`, with its attribute block. -/
def spanAt (h : Hit (Embed × Option Text)) (p : Nat) : Span :=
  ⟨p, p + (attributedText h.value).length⟩

theorem spanAt_within (h : Hit (Embed × Option Text)) (k : Nat) :
    k ≤ (spanAt h k).start ∧ (spanAt h k).stop ≤ k + (attributedText h.value).length :=
  ⟨Nat.le_refl _, Nat.le_refl _⟩

/-- Embeds that stand apart in a note do so where the note is quoted. -/
theorem spanAt_quoted_apart {h h' : Hit (Embed × Option Text)} {p p' : Nat}
    (hapart : (spanAt h p).Apart (spanAt h' p')) (quote t : Text) (k : Nat) :
    (spanAt h (k + quotedAt quote t p)).Apart (spanAt h' (k + quotedAt quote t p')) := by
  unfold Span.Apart spanAt at *
  simp only at hapart ⊢
  rcases hapart with hstop | hstop
  · have := quotedAt_add_le quote t hstop
    omega
  · have := quotedAt_add_le quote t hstop
    omega

/-- What a note that comes in holds lies within what takes its place. -/
theorem Leaves.within {content : Text} {source target : DocumentId} {above : List DocumentId}
    {site : LoweringSite} (hends : (l.lowerer.weave? t source (source :: above) c).isSome)
    (hsite : site ∈ (l.seenThrough c).sitesIn t source)
    (hgranted : l.lowerer.answer (source :: above) site (l.resolver.collection.seenThrough c) =
      .ok (target, content))
    (rest : l.Leaves c content (target :: source :: above) path d h p) (k : Nat) :
    let inner := (l.lowerer.weave content target (target :: source :: above) c).1.text
    k ≤ (spanAt h (k + quotedAt site.quote inner p)).start ∧
      (spanAt h (k + quotedAt site.quote inner p)).stop ≤
        k + (quoteLines site.quote inner).length := by
  intro inner
  have hinner : inner.HasAt p (attributedText h.value) :=
    rest.hasAt _ _ rfl (isSome_weave?_of_granted hends hsite hgranted)
  have hlength := (@hasAt_quoteLines site.quote _ _ _ hinner (attributedText_ne_nil _)
    rest.line.1).length_le (attributedText_ne_nil _)
  unfold spanAt
  simp only
  omega

/-- **Different embeds that a pass leaves stand apart**: by induction on the way to the first one,
as long as both ways are the same. -/
theorem Leaves.apart {path' : List LoweringSite} {d' : DocumentId}
    {h' : Hit (Embed × Option Text)} {p' : Nat} (hleft : l.Leaves c t chain path d h p)
    (hleft' : l.Leaves c t chain path' d' h' p') : ∀ source above, chain = source :: above →
      (l.lowerer.weave? t source chain c).isSome → (path', h') ≠ (path, h) →
        (spanAt h p).Apart (spanAt h' p') := by
  induction hleft generalizing path' d' h' p' with
  | @here t source above h hhit _ hfree =>
    rintro _ _ ⟨⟩ hends hne
    have hfits := fits_fills l c t source (source :: above)
    cases hleft' with
    | here hhit' _ hfree' =>
      refine (lands_of_free hhit hfree).apart hfits (lands_of_free hhit' hfree') ?_
        (spanAt_within h _) (spanAt_within _ _)
      refine Span.apart_of_pairwise ((t.scan_pairwise recogniseAttributedEmbed).imp And.right) hhit
        hhit' ?_
      rintro rfl
      exact hne rfl
    | down hsite' hgranted' rest' =>
      exact (lands_of_free hhit hfree).apart hfits (lands_of_granted hsite' hgranted')
        (hfree _ hsite' (construct_of_granted hgranted')).symm (spanAt_within h _)
        (rest'.within hends hsite' hgranted' _)
  | @down t content source target d above site path h p hsite hgranted rest ih =>
    rintro _ _ ⟨⟩ hends hne
    have hfits := fits_fills l c t source (source :: above)
    cases hleft' with
    | here hhit' _ hfree' =>
      exact (lands_of_granted hsite hgranted).apart hfits (lands_of_free hhit' hfree')
        (hfree' _ hsite (construct_of_granted hgranted)) (rest.within hends hsite hgranted _)
        (spanAt_within _ _)
    | @down _ content' _ target' _ _ site' path' _ p' hsite' hgranted' rest' =>
      by_cases hsame : site = site'
      · -- Both ways go through this site, so the embeds are apart in the note already.
        subst hsame
        rw [hgranted] at hgranted'
        cases hgranted'
        have hinner := ih rest' _ _ rfl (isSome_weave?_of_granted hends hsite hgranted) (by
          simpa using hne)
        exact spanAt_quoted_apart hinner _ _ _
      · exact (lands_of_granted hsite hgranted).apart hfits (lands_of_granted hsite' hgranted')
          (Span.apart_of_pairwise (sitesIn_pairwise _ t source) hsite hsite' hsame)
          (rest.within hends hsite hgranted _) (rest'.within hends hsite' hgranted' _)

/-! ### What later passes leave -/

/-- A site is that of the embed whose brackets stand at `q`. -/
def IsEmbedAt (l : Lowering) (t : Text) (source : DocumentId) (q : Nat) (site : LoweringSite) :
    Prop :=
  ∃ h ∈ t.scan recogniseAttributedEmbed, h.span.start + h.value.1.quote.length = q ∧
    site = ⟨h.span, l.embedMeant source h.value⟩

/-- **A pass lets an embed be** that stands in a part of the text. -/
structure LetsBe (l : Lowering) (t : Text) (source : DocumentId) (e : Embed) (b : Span) :
    Prop where
  /-- If the embed means a document in `source`, the pass does not find it. -/
  own : (l.documentMeant source e.inner).isSome → ∀ site ∈ l.sitesIn t source,
    ¬l.IsEmbedAt t source (b.start + e.quote.length) site
  /-- What the pass replaces beside it does not meet it, or is a fence whose listing keeps it. -/
  others : ∀ site ∈ l.sitesIn t source, site.construct.isSome →
    ¬l.IsEmbedAt t source (b.start + e.quote.length) site →
      site.span.Apart b ∨ ∃ f ∈ t.fences, site = l.fenceSite f ∧ l.holds t b f

/-- The embed whose brackets stand at some place says what stands between them. -/
theorem inner_eq_of_brackets {t : Text} {h : Hit (Embed × Option Text)}
    (hhit : h ∈ t.scan recogniseAttributedEmbed) {p : Nat} {e : Embed × Option Text}
    (hstands : t.HasAt p (attributedText e)) (hinner : IsInner e.1.inner)
    (hq : h.span.start + h.value.1.quote.length = p + e.1.quote.length) :
    h.value.1.inner = e.1.inner := by
  obtain ⟨hbrackets, hinner'⟩ := hasAt_of_mem_scan_attributedEmbed hhit
  have hown : Text.HasAt (attributedText e) e.1.quote.length (brackets e.1.inner) := by
    unfold Text.HasAt attributedText Embed.text
    rw [List.append_assoc, List.drop_left]
    exact List.prefix_append _ _
  rw [hq] at hbrackets
  exact brackets_inj hbrackets (hstands.inner hown) hinner' hinner

/-- An embed reaches as far as behind its brackets. -/
theorem quote_length_lt (e : Embed × Option Text) :
    e.1.quote.length < (attributedText e).length := by
  simp only [attributedText, Embed.text, brackets, List.length_append, List.length_cons]
  omega

/-- **A pass spares an embed** just when it lets it be. -/
theorem spares_iff_letsBe {source : DocumentId} {p : Nat} {e : Embed × Option Text}
    (hstands : t.HasAt p (attributedText e)) (hinner : IsInner e.1.inner) :
    l.Spares t source ⟨p, p + (attributedText e).length⟩ ↔
      l.LetsBe t source e.1 ⟨p, p + (attributedText e).length⟩ := by
  constructor
  · intro hspares
    refine ⟨?_, fun site hsite hconstruct _ => hspares site hsite hconstruct⟩
    rintro hmeans site hsite ⟨h, hhit, hq, rfl⟩
    have hmeant : (l.embedMeant source h.value).isSome := by
      rw [isSome_embedMeant, inner_eq_of_brackets hhit hstands hinner hq]
      exact hmeans
    rcases hspares _ hsite hmeant with hapart | ⟨f, hf, heq, -⟩
    · obtain ⟨-, hstop, -, -⟩ := hasAt_attributedText hhit
      have := quote_length_lt h.value
      have := quote_length_lt e
      unfold Span.Apart at hapart
      simp only at hapart hq
      omega
    · exact (loose_of_mem_sitesMeant marked_recogniseAttributedEmbed
        (mem_sitesMeant hhit hmeant)).ne_fenceSite hf heq
  · intro hlets site hsite hconstruct
    by_cases hown : l.IsEmbedAt t source (p + e.1.quote.length) site
    · have hfound := hown
      obtain ⟨h, hhit, hq, rfl⟩ := hown
      have hmeant : (l.embedMeant source h.value).isSome := hconstruct
      rw [isSome_embedMeant, inner_eq_of_brackets hhit hstands hinner hq] at hmeant
      exact absurd hfound (hlets.own hmeant _ hsite)
    · exact hlets.others site hsite hconstruct hown

/-- An embed stays through some passes just when each of them lets it be, where it stands then: by
induction on the passes. -/
theorem stays_iff_letsBe {source : DocumentId} {p n : Nat} {e : Embed × Option Text}
    (hends : ∀ m < n, l.PassEnds c source (l.afterPasses c source t m))
    (hstands : t.HasAt p (attributedText e)) (hinner : IsInner e.1.inner) :
    l.Stays c source t ⟨p, p + (attributedText e).length⟩ n ↔
      ∀ m < n, (l.seenThrough c).LetsBe (l.afterPasses c source t m) source e.1
        (l.follow c source t ⟨p, p + (attributedText e).length⟩ m) := by
  have hstep : ∀ m < n, l.Stays c source t ⟨p, p + (attributedText e).length⟩ m →
      ((l.seenThrough c).Spares (l.afterPasses c source t m) source
          (l.follow c source t ⟨p, p + (attributedText e).length⟩ m) ↔
        (l.seenThrough c).LetsBe (l.afterPasses c source t m) source e.1
          (l.follow c source t ⟨p, p + (attributedText e).length⟩ m)) := by
    intro m hm hstays
    have hthere := hasAt_follow (attributedText_ne_nil e)
      (fun k hk => hends k (Nat.lt_trans hk hm)) hstays hstands
    have hspan : l.follow c source t ⟨p, p + (attributedText e).length⟩ m =
        ⟨(l.follow c source t ⟨p, p + (attributedText e).length⟩ m).start,
          (l.follow c source t ⟨p, p + (attributedText e).length⟩ m).start +
            (attributedText e).length⟩ := by
      rw [← follow_stop]
    rw [hspan]
    exact spares_iff_letsBe hthere hinner
  constructor
  · intro hstays m hm
    exact (hstep m hm fun k hk => hstays k (Nat.lt_trans hk hm)).mp (hstays m hm)
  · intro hlets m
    induction m using Nat.strong_induction_on with
    | _ m ih =>
      intro hm
      exact (hstep m hm fun k hk => ih k hk (Nat.lt_trans hk hm)).mpr (hlets m hm)

/-- Lowering makes a pass. -/
theorem lower_passes_pos (l : Lowering) (c : Cache) (t : Text) (source : DocumentId) :
    0 < (l.lower c t source).1.passes := by
  unfold lower passLimit
  rw [settle]
  simp only
  split
  · exact Nat.succ_pos _
  · exact (@settle_text l (l.pass c t source).2 source _ 4 1 _ rfl).1

/-- What lowering gives, counted from the text after the first pass. -/
theorem lower_text_succ (l : Lowering) (c : Cache) (t : Text) (source : DocumentId) :
    (l.lower c t source).1.text =
      l.afterPasses c source (l.passText c source t) ((l.lower c t source).1.passes - 1) := by
  have hpos := lower_passes_pos l c t source
  rw [lower_text, show l.passText c source t = l.afterPasses c source t 1 from rfl,
    afterPasses_add]
  congr 1
  omega

/-- **What becomes of an embed that the first pass leaves** in a note that it brings in. It stands
in the new text as it is written in its note. It stays there through the later passes just when each
of them lets it be: when the pass does not find it with a meaning that it has in the text's own
document, and replaces nothing that meets it. Then it stands in what lowering gives, apart from
every other embed of which the same holds. -/
theorem leftovers_stay_iff (l : Lowering) (c : Cache) (t : Text) (source : DocumentId)
    (hends : ∀ n < (l.lower c t source).1.passes,
      l.PassEnds c source (l.afterPasses c source t n))
    {path : List LoweringSite} {d : DocumentId} {h : Hit (Embed × Option Text)} {p : Nat}
    (hleft : l.Leaves c t [source] path d h p) :
    let x := l.passText c source t
    let later := (l.lower c t source).1.passes - 1
    x.HasAt p (attributedText h.value) ∧
    (l.Stays c source x (spanAt h p) later ↔
      ∀ n < later, (l.seenThrough c).LetsBe (l.afterPasses c source x n) source h.value.1
        (l.follow c source x (spanAt h p) n)) ∧
    (l.Stays c source x (spanAt h p) later →
      (l.lower c t source).1.text.HasAt (l.follow c source x (spanAt h p) later).start
          (attributedText h.value) ∧
        ∀ {path' d' h' p'}, l.Leaves c t [source] path' d' h' p' → (path', h') ≠ (path, h) →
          l.Stays c source x (spanAt h' p') later →
            (l.follow c source x (spanAt h p) later).Apart
              (l.follow c source x (spanAt h' p') later)) := by
  intro x later
  have hpos := lower_passes_pos l c t source
  have hfirst : l.PassEnds c source t := hends 0 hpos
  have hlater : ∀ m < later, l.PassEnds c source (l.afterPasses c source x m) := by
    intro m hm
    rw [show x = l.afterPasses c source t 1 from rfl, afterPasses_add]
    exact hends _ (by omega)
  have hstands : ∀ {path d h p}, l.Leaves c t [source] path d h p →
      x.HasAt p (attributedText h.value) := fun hleft => hleft.hasAt _ _ rfl hfirst
  refine ⟨hstands hleft, stays_iff_letsBe hlater (hstands hleft) hleft.line.2, ?_⟩
  intro hstays
  constructor
  · rw [lower_text_succ]
    exact hasAt_follow (attributedText_ne_nil _) hlater hstays (hstands hleft)
  · intro path' d' h' p' hleft' hne hstays'
    rcases hleft.apart hleft' _ _ rfl hfirst hne with hle | hle
    · exact .inl (follow_le (attributedText_ne_nil _) (attributedText_ne_nil _) hlater hstays
        hstays' (hstands hleft) hle)
    · exact .inr (follow_le (attributedText_ne_nil _) (attributedText_ne_nil _) hlater hstays'
        hstays (hstands hleft') hle)

end Lowering

/-! ### An embed that is lost -/

/-- A note at the root that embeds a picture further up, where there is none, and a picture at the
root. -/
def upwardVault : MemoryVault :=
  ⟨[(.ofPath "n.md".toList, "![[../x.png]]".toList), (.ofPath "x.png".toList, [])], []⟩

/-- Lowering for that collection, without a width for pictures. -/
def upwardLowering : Lowering := Lowering.of upwardVault.toCollection { scaleImages := false } true

/-- The note with the embed. -/
abbrev upwardNote : DocumentId := .ofPath "n.md".toList

/-- A note in a directory, which embeds the other one. -/
abbrev innerNote : DocumentId := .ofPath "h/main.md".toList

/-- The embed of the note. -/
def upwardSite : LoweringSite := ⟨⟨0, 6⟩, some (.note [] upwardNote none .whole)⟩

/-- The embed in the note. -/
def upwardEmbed : Hit (Embed × Option Text) := ⟨⟨0, 13⟩, ⟨[], "../x.png".toList⟩, none⟩

deriving instance DecidableEq for Hit, LoweringSite

theorem upwardEmbed_mem_scan :
    upwardEmbed ∈ Text.scan recogniseAttributedEmbed "![[../x.png]]".toList := by decide

theorem attributedText_upwardEmbed :
    attributedText upwardEmbed.value = "![[../x.png]]".toList := by decide

theorem upwardVault_sites :
    upwardLowering.sitesIn "![[n]]".toList innerNote = [upwardSite] := by decide

theorem upwardSite_mem : upwardSite ∈
    (upwardLowering.seenThrough .empty).sitesIn "![[n]]".toList innerNote := by
  rw [Lowering.seenThrough_empty, upwardVault_sites]
  exact List.mem_singleton_self _

theorem upwardVault_no_sites :
    upwardLowering.sitesIn "![[../x.png]]".toList upwardNote = [] := by decide

theorem upwardVault_granted :
    upwardLowering.lowerer.answer [innerNote] upwardSite
        (upwardLowering.resolver.collection.seenThrough .empty) =
      .ok (upwardNote, "![[../x.png]]".toList) := by
  rw [Collection.seenThrough_empty]
  exact Weaver.answer_eq_ok_iff.mpr
    ⟨.whole, "![[../x.png]]".toList, rfl, by decide, by decide, by decide⟩

theorem upwardVault_unmeant :
    (upwardLowering.seenThrough .empty).documentMeant upwardNote upwardEmbed.value.1.inner =
      none := by
  rw [Lowering.seenThrough_empty]
  decide

/-- The embed means nothing in its note, and the pass leaves it. -/
theorem upwardVault_leaves :
    ∃ p, upwardLowering.Leaves .empty "![[n]]".toList [innerNote] [upwardSite] upwardNote
      upwardEmbed p := by
  have hfree : ∀ site ∈ (upwardLowering.seenThrough .empty).sitesIn "![[../x.png]]".toList
      upwardNote, site.construct.isSome → site.span.Apart upwardEmbed.span := by
    rw [Lowering.seenThrough_empty, upwardVault_no_sites]
    simp
  exact ⟨_, .down upwardSite_mem upwardVault_granted
    (.here upwardEmbed_mem_scan upwardVault_unmeant hfree)⟩

/-- The first pass brings the note in with its embed. -/
theorem upwardVault_passText :
    upwardLowering.passText .empty innerNote "![[n]]".toList = "![[../x.png]]".toList := by
  have hends : upwardLowering.PassEnds .empty innerNote "![[n]]".toList :=
    Lowering.passEnds_of_vault upwardVault _ _ _ _ _
  have hinner : (upwardLowering.lowerer.weave "![[../x.png]]".toList upwardNote
      [upwardNote, innerNote] .empty).1.text = "![[../x.png]]".toList := by
    rw [Lowering.weave_text
        (Lowering.isSome_weave?_of_granted hends upwardSite_mem upwardVault_granted),
      Lowering.fills, Lowering.seenThrough_empty, upwardVault_no_sites]
    rfl
  rw [Lowering.passText_eq hends, Lowering.parts, Lowering.seenThrough_empty, upwardVault_sites,
    List.filterMap_cons_some (by rw [Lowering.filled_of_granted upwardVault_granted, hinner]; rfl)]
  rfl

/-- **An embed that the first pass leaves can be lost.** No text opens a fence, and the first pass
leaves an embed of a note that it brings in. The next pass takes it for an embed of the text's own
document, where it means a picture. -/
theorem leftover_lost :
    (∀ text ∈ "![[n]]".toList :: upwardVault.documents.map (·.2),
      ∀ line ∈ Text.lines text, FenceLine.read? line.content = none) ∧
    (∃ p, upwardLowering.Leaves .empty "![[n]]".toList [innerNote] [upwardSite] upwardNote
      upwardEmbed p) ∧
    (upwardLowering.pass .empty "![[n]]".toList innerNote).1 = attributedText upwardEmbed.value ∧
    (upwardLowering.lower .empty "![[n]]".toList innerNote).1.text = "![](x.png)".toList ∧
    ¬Text.occursIn (attributedText upwardEmbed.value)
      (upwardLowering.lower .empty "![[n]]".toList innerNote).1.text := by
  have htwice : upwardLowering.afterPasses .empty innerNote "![[n]]".toList 2 =
      "![](x.png)".toList := by
    show upwardLowering.passText .empty _ (upwardLowering.passText .empty _ _) = _
    rw [upwardVault_passText]
    exact Lowering.passText_of_vault upwardVault _ _ (by decide +kernel) (by decide +kernel)
  have htext : (upwardLowering.lower .empty "![[n]]".toList innerNote).1.text =
      "![](x.png)".toList := by
    rw [Lowering.lower_text_of_fixed (n := 2) (by decide) ?_, htwice]
    rw [htwice]
    exact Lowering.passText_of_vault upwardVault _ _ (by decide +kernel) (by decide +kernel)
  have hpass : (upwardLowering.pass .empty "![[n]]".toList innerNote).1 =
      attributedText upwardEmbed.value :=
    upwardVault_passText.trans attributedText_upwardEmbed.symm
  have hgone : ¬Text.occursIn (attributedText upwardEmbed.value) "![](x.png)".toList := by
    decide +kernel
  exact ⟨by decide +kernel, upwardVault_leaves, hpass, htext, htext ▸ hgone⟩

/-- The condition for that embed. -/
theorem leftovers_stay_iff_upward :
    ∃ p, upwardLowering.Leaves .empty "![[n]]".toList [innerNote] [upwardSite] upwardNote
        upwardEmbed p ∧
      let x := upwardLowering.passText .empty innerNote "![[n]]".toList
      let later := (upwardLowering.lower .empty "![[n]]".toList innerNote).1.passes - 1
      x.HasAt p (attributedText upwardEmbed.value) ∧
      (upwardLowering.Stays .empty innerNote x (Lowering.spanAt upwardEmbed p) later ↔
        ∀ n < later, (upwardLowering.seenThrough .empty).LetsBe
          (upwardLowering.afterPasses .empty innerNote x n) innerNote upwardEmbed.value.1
          (upwardLowering.follow .empty innerNote x (Lowering.spanAt upwardEmbed p) n)) ∧
      (upwardLowering.Stays .empty innerNote x (Lowering.spanAt upwardEmbed p) later →
        (upwardLowering.lower .empty "![[n]]".toList innerNote).1.text.HasAt
            (upwardLowering.follow .empty innerNote x (Lowering.spanAt upwardEmbed p) later).start
            (attributedText upwardEmbed.value) ∧
          ∀ {path' d' h' p'}, upwardLowering.Leaves .empty "![[n]]".toList [innerNote] path' d' h'
              p' → (path', h') ≠ ([upwardSite], upwardEmbed) →
            upwardLowering.Stays .empty innerNote x (Lowering.spanAt h' p') later →
              (upwardLowering.follow .empty innerNote x (Lowering.spanAt upwardEmbed p)
                later).Apart
                (upwardLowering.follow .empty innerNote x (Lowering.spanAt h' p') later)) := by
  obtain ⟨p, hleft⟩ := upwardVault_leaves
  exact ⟨p, hleft, Lowering.leftovers_stay_iff upwardLowering .empty _ _
    (fun _ _ => Lowering.passEnds_of_vault upwardVault _ _ _ _ _) hleft⟩

end NotePress
