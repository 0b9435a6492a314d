import Mathlib.Logic.Function.Iterate
import NotePress.Proofs.Shelter
import NotePress.Proofs.Termination

/-!
# Pieces of a text through passes

A pass splices what takes the place of its sites into the text. So a piece that the pass spares
stands in the new text: where it lands, or in the listing that took its fence over
(`Lowering.carry`, `Lowering.hasAt_passText`), and pieces stay in order (`Lowering.carry_le`).

The text after some passes depends on the cache only through what is seen, and what lowering gives
in the end is the text after the passes made (`Lowering.lower_text`).
-/

namespace NotePress

namespace Lowering

variable {l : Lowering} {c : Cache} {source : DocumentId} {t : Text} {b : Span}

/-! ### One pass -/

/-- The text after a pass. -/
def passText (l : Lowering) (c : Cache) (source : DocumentId) (t : Text) : Text :=
  (l.pass c t source).1

/-- What a pass puts into the text. -/
def parts (l : Lowering) (c : Cache) (source : DocumentId) (t : Text) : List (Span × Text) :=
  ((l.seenThrough c).sitesIn t source).filterMap fun site =>
    (l.lowerer.filled c source [source] site).1.map (site.span, ·)

/-- A pass over the text ends. -/
def PassEnds (l : Lowering) (c : Cache) (source : DocumentId) (t : Text) : Prop :=
  (l.lowerer.weave? t source [source] c).isSome

theorem passText_eq (h : l.PassEnds c source t) :
    l.passText c source t = t.splice (l.parts c source t) := by
  unfold passText pass
  simp only
  rw [(Weaver.weave_eq l.finds_lowerer h).1]
  rfl

/-- A site that only shields its inside keeps its text. -/
theorem filled_of_construct_eq_none {visited : List DocumentId} {site : LoweringSite}
    (h : site.construct = none) : (l.lowerer.filled c source visited site).1 = none := by
  have hasks : l.lowerer.asks site = none := by simp [lowerer, LoweringSite.asks, h]
  rw [Weaver.filled_of_asks_eq_none hasks]
  simp [lowerer, h]

/-- A site of an image or listing is rendered. -/
theorem filled_of_asks_eq_none {visited : List DocumentId} {site : LoweringSite}
    {construct : Construct} (h : site.construct = some construct) (hasks : site.asks = none) :
    (l.lowerer.filled c source visited site).1 = some (l.render construct) := by
  have hasks : l.lowerer.asks site = none := hasks
  rw [Weaver.filled_of_asks_eq_none hasks]
  simp [lowerer, h]

theorem exists_site_of_mem_parts {part : Span × Text} (h : part ∈ l.parts c source t) :
    ∃ site ∈ (l.seenThrough c).sitesIn t source, site.construct.isSome ∧ part.1 = site.span := by
  obtain ⟨site, hsite, he⟩ := List.mem_filterMap.mp h
  obtain ⟨new, hnew, rfl⟩ := Option.map_eq_some_iff.mp he
  refine ⟨site, hsite, ?_, rfl⟩
  cases hconstruct : site.construct with
  | some construct => rfl
  | none =>
    rw [filled_of_construct_eq_none hconstruct] at hnew
    cases hnew

theorem mem_parts {site : LoweringSite} (hsite : site ∈ (l.seenThrough c).sitesIn t source)
    {construct : Construct} (h : site.construct = some construct) (hasks : site.asks = none) :
    (site.span, l.render construct) ∈ l.parts c source t :=
  List.mem_filterMap.mpr ⟨site, hsite, by rw [filled_of_asks_eq_none h hasks]; rfl⟩

theorem fits_parts (l : Lowering) (c : Cache) (source : DocumentId) (t : Text) :
    t.Fits ((l.parts c source t).map (·.1)) :=
  Text.fits_filterMap (sitesIn_pairwise (l.seenThrough c) t source) fun _ hsite =>
    candidate_lt (mem_of_mem_arrange hsite)

/-- A pass that no note comes into renders its sites. -/
theorem passText_eq_render (h : l.PassEnds c source t)
    (hasks : ∀ site ∈ (l.seenThrough c).sitesIn t source, site.asks = none) :
    l.passText c source t = t.splice (((l.seenThrough c).sitesIn t source).filterMap fun site =>
      (site.construct.map l.render).map (site.span, ·)) := by
  rw [passText_eq h]
  unfold parts
  congr 1
  refine List.filterMap_congr fun site hsite => ?_
  cases hconstruct : site.construct with
  | none => rw [filled_of_construct_eq_none hconstruct]; rfl
  | some construct => rw [filled_of_asks_eq_none hconstruct (hasks site hsite)]; rfl

/-! ### Listings -/

/-- What stands in a listing in front of the line break and the body. -/
def listingLead (quote : Text) (language label caption : Option Text) : Text :=
  quote ++ listingBegin ++ match listingOptions language label caption with
    | [] => []
    | present => '[' :: Text.join [','] present ++ [']']

theorem listingOf_eq (quote : Text) (language label caption : Option Text) (body : Text) :
    ∃ back, listingOf quote language label caption body =
      listingLead quote language label caption ++ '\n' :: body ++ back := by
  unfold listingOf listingLead
  cases listingOptions language label caption <;> cases body with
  | nil => exact ⟨quote ++ listingEnd, by simp⟩
  | cons ch body => exact ⟨'\n' :: (quote ++ listingEnd), by simp⟩

/-- A fence becomes a listing of its body. -/
theorem constructOfFence_eq_some {f : Fence} {construct : Construct}
    (h : l.constructOfFence f = some construct) :
    ∃ language label caption, construct = .listing f.quote language label caption f.body := by
  unfold constructOfFence at h
  split at h
  · cases h
  · simp only at h
    split at h
    · cases h
    · cases h
      exact ⟨_, _, _, rfl⟩

/-- How far into its listing the inside of a fence stands. -/
def leadLength (l : Lowering) (f : Fence) : Nat :=
  match l.constructOfFence f with
  | some (.listing quote language label caption _) =>
    (listingLead quote language label caption).length
  | _ => 0

/-- A fence that becomes a listing has a part in the pass, which has the fence's inside. -/
theorem exists_listing (c : Cache) (source : DocumentId) {f : Fence} (hf : f ∈ t.fences)
    (h : (l.constructOfFence f).isSome) :
    ∃ new, (f.span, new) ∈ l.parts c source t ∧
      Text.HasAt new (l.leadLength f) ('\n' :: f.body) ∧
        l.leadLength f + ('\n' :: f.body).length ≤ new.length := by
  obtain ⟨construct, hconstruct⟩ := Option.isSome_iff_exists.mp h
  obtain ⟨language, label, caption, rfl⟩ := constructOfFence_eq_some hconstruct
  obtain ⟨back, hback⟩ := listingOf_eq f.quote language label caption f.body
  have hlead : l.leadLength f = (listingLead f.quote language label caption).length := by
    unfold leadLength
    rw [hconstruct]
  have hasks : (l.fenceSite f).asks = none := by
    unfold fenceSite
    rw [hconstruct]
    rfl
  refine ⟨listingOf f.quote language label caption f.body, ?_, ?_⟩
  · exact mem_parts (fenceSite_mem_sitesIn (l.seenThrough c) source hf) hconstruct hasks
  · have hstands := Text.hasAt_iff_append.mpr ⟨_, _, hback, rfl⟩
    rw [hlead]
    exact ⟨hstands.1, hstands.1.length_le (List.cons_ne_nil _ _)⟩

/-! ### Carrying pieces -/

/-- Where the start of a part of the text stands after a pass that spares it. -/
def carry (l : Lowering) (c : Cache) (source : DocumentId) (t : Text) (b : Span) : Nat :=
  match t.fences.find? (l.holds t b) with
  | some f =>
    t.landing (l.parts c source t) f.span.start + l.leadLength f + (b.start - (f.inside t).start)
  | none => t.landing (l.parts c source t) b.start

/-- A part of the text is outside all that the pass puts in, or in the inside of a fence that
becomes a listing. -/
theorem carry_cases (hspares : (l.seenThrough c).Spares t source b) :
    ((∀ part ∈ l.parts c source t, part.1.Apart b) ∧
        l.carry c source t b = t.landing (l.parts c source t) b.start) ∨
      ∃ f ∈ t.fences, (l.constructOfFence f).isSome ∧ (f.inside t).start ≤ b.start ∧
        b.stop ≤ (f.inside t).stop ∧
          l.carry c source t b = t.landing (l.parts c source t) f.span.start + l.leadLength f +
            (b.start - (f.inside t).start) := by
  unfold carry
  cases hfind : t.fences.find? (l.holds t b) with
  | some f =>
    have hholds := List.find?_some hfind
    simp only [holds, Bool.and_eq_true, decide_eq_true_eq] at hholds
    exact .inr ⟨f, List.mem_of_find?_eq_some hfind, hholds.1.1, hholds.1.2, hholds.2, rfl⟩
  | none =>
    refine .inl ⟨fun part hpart => ?_, rfl⟩
    obtain ⟨site, hsite, hconstruct, heq⟩ := exists_site_of_mem_parts hpart
    rw [heq]
    rcases hspares site hsite hconstruct with hapart | ⟨f, hf, -, hholds⟩
    · exact hapart
    · exact absurd hholds (List.find?_eq_none.mp hfind f hf)

/-- **A piece that a pass spares stands in the new text**, where it is carried to. -/
theorem hasAt_passText (hends : l.PassEnds c source t)
    (hspares : (l.seenThrough c).Spares t source b) {piece : Text} (hpiece : piece ≠ [])
    (h : t.HasAt b.start piece) (hb : b.stop = b.start + piece.length) :
    (l.passText c source t).HasAt (l.carry c source t b) piece := by
  rw [passText_eq hends]
  rcases carry_cases hspares with ⟨hapart, hcarry⟩ | ⟨f, hf, hconstruct, hstart, hstop, hcarry⟩
  · rw [hcarry]
    refine h.splice (fits_parts l c source t) hpiece fun part hpart => ?_
    rw [← hb]
    exact hapart part hpart
  · obtain ⟨new, hnew, hlisting, -⟩ := exists_listing c source hf hconstruct
    have hinside := (Text.stands_of_mem_fences hf).inside
    have hinsideStop : (f.inside t).stop = (f.inside t).start + ('\n' :: f.body).length := rfl
    rw [hcarry, Nat.add_assoc]
    refine (Text.hasAt_splice_of_mem (fits_parts l c source t) hnew).inner (hlisting.inner ?_)
    refine hinside.of_within ?_ (by omega)
    rwa [Nat.add_sub_cancel' hstart]

/-- **Pieces stay in order.** -/
theorem carry_le {b₁ b₂ : Span} (h₁ : (l.seenThrough c).Spares t source b₁)
    (h₂ : (l.seenThrough c).Spares t source b₂) {piece : Text} (hpiece : piece ≠ [])
    (h : t.HasAt b₁.start piece) (hb₁ : b₁.stop = b₁.start + piece.length)
    (hb₂ : b₂.start < b₂.stop) (horder : b₁.stop ≤ b₂.start) :
    l.carry c source t b₁ + piece.length ≤ l.carry c source t b₂ := by
  have hfits := fits_parts l c source t
  have hpos := List.length_pos_iff.mpr hpiece
  have hinside : ∀ f ∈ t.fences, f.span.start < (f.inside t).start ∧
      (f.inside t).stop ≤ f.span.stop := fun f hf =>
    ⟨(Text.stands_of_mem_fences hf).start_lt, (Text.stands_of_mem_fences hf).stop_le⟩
  -- A fence that holds one of the parts is apart from the other one, or holds both.
  rcases carry_cases h₁ with
      ⟨hapart₁, hcarry₁⟩ | ⟨f₁, hf₁, hconstruct₁, hstart₁, hstop₁, hcarry₁⟩ <;>
    rcases carry_cases h₂ with
      ⟨hapart₂, hcarry₂⟩ | ⟨f₂, hf₂, hconstruct₂, hstart₂, hstop₂, hcarry₂⟩
  · rw [hcarry₁, hcarry₂]
    exact Text.landing_add_length_le hfits h hpiece (fun part hpart => hb₁ ▸ hapart₁ part hpart)
      (hb₁ ▸ horder)
  · obtain ⟨new, hnew, -, hlength⟩ := exists_listing c source hf₂ hconstruct₂
    have := hinside f₂ hf₂
    have hfront : b₁.start + piece.length ≤ f₂.span.start := by
      rcases hapart₁ _ hnew with hstop | hstop
      · have hstop : f₂.span.stop ≤ b₁.start := hstop
        omega
      · exact hb₁ ▸ hstop
    have := Text.landing_add_length_le hfits h hpiece
      (fun part hpart => hb₁ ▸ hapart₁ part hpart) hfront
    omega
  · obtain ⟨new, hnew, -, hlength⟩ := exists_listing c source hf₁ hconstruct₁
    have hstop : (f₁.inside t).stop = (f₁.inside t).start + ('\n' :: f₁.body).length := rfl
    have := hinside f₁ hf₁
    have hbehind : f₁.span.stop ≤ b₂.start := by
      rcases hapart₂ _ hnew with hstop | hstop
      · exact hstop
      · have hstop : b₂.stop ≤ f₁.span.start := hstop
        omega
    have := Text.landing_add_new_length_le hfits hnew hbehind
    omega
  · obtain ⟨new, hnew, -, hlength⟩ := exists_listing c source hf₁ hconstruct₁
    have hstop : (f₁.inside t).stop = (f₁.inside t).start + ('\n' :: f₁.body).length := rfl
    have := hinside f₁ hf₁
    have := hinside f₂ hf₂
    by_cases hapart : f₁.span.Apart f₂.span
    · have hbehind : f₁.span.stop ≤ f₂.span.start := by
        rcases hapart with hstop | hstop
        · exact hstop
        · omega
      have := Text.landing_add_new_length_le hfits hnew hbehind
      omega
    · obtain rfl := Text.eq_of_fences_meet hf₁ hf₂ hapart
      omega

/-! ### Several passes -/

/-- The text after some passes. -/
def afterPasses (l : Lowering) (c : Cache) (source : DocumentId) (t : Text) (n : Nat) : Text :=
  (l.passText c source)^[n] t

/-- Where a part of the text stands after some passes that spare it. -/
def follow (l : Lowering) (c : Cache) (source : DocumentId) (t : Text) (b : Span) : Nat → Span
  | 0 => b
  | n + 1 =>
    let start := l.carry c source (l.afterPasses c source t n) (l.follow c source t b n)
    ⟨start, start + (b.stop - b.start)⟩

/-- Some passes spare a part of the text. -/
def Stays (l : Lowering) (c : Cache) (source : DocumentId) (t : Text) (b : Span) (n : Nat) : Prop :=
  ∀ m < n, (l.seenThrough c).Spares (l.afterPasses c source t m) source (l.follow c source t b m)

theorem afterPasses_succ (l : Lowering) (c : Cache) (source : DocumentId) (t : Text) (n : Nat) :
    l.afterPasses c source t (n + 1) = l.passText c source (l.afterPasses c source t n) :=
  Function.iterate_succ_apply' _ _ _

theorem afterPasses_add (l : Lowering) (c : Cache) (source : DocumentId) (t : Text) (m n : Nat) :
    l.afterPasses c source (l.afterPasses c source t m) n = l.afterPasses c source t (m + n) := by
  unfold afterPasses
  rw [Nat.add_comm, Function.iterate_add_apply]

theorem follow_stop {p : Nat} {piece : Text} (n : Nat) :
    (l.follow c source t ⟨p, p + piece.length⟩ n).stop =
      (l.follow c source t ⟨p, p + piece.length⟩ n).start + piece.length := by
  cases n with
  | zero => rfl
  | succ n =>
    show _ + (p + piece.length - p) = _
    rw [Nat.add_sub_cancel_left]
    rfl

/-- **A piece that some passes spare stands in the text after them.** -/
theorem hasAt_follow {n : Nat} {p : Nat} {piece : Text} (hpiece : piece ≠ [])
    (hends : ∀ m < n, l.PassEnds c source (l.afterPasses c source t m))
    (hstays : l.Stays c source t ⟨p, p + piece.length⟩ n) (h : t.HasAt p piece) :
    (l.afterPasses c source t n).HasAt (l.follow c source t ⟨p, p + piece.length⟩ n).start
      piece := by
  induction n with
  | zero => exact h
  | succ n ih =>
    rw [afterPasses_succ]
    exact hasAt_passText (hends n (Nat.lt_succ_self n)) (hstays n (Nat.lt_succ_self n)) hpiece
      (ih (fun m hm => hends m (Nat.lt_succ_of_lt hm)) fun m hm => hstays m (Nat.lt_succ_of_lt hm))
      (follow_stop n)

/-- Pieces that some passes spare stay in order. -/
theorem follow_le {n : Nat} {p₁ p₂ : Nat} {piece₁ piece₂ : Text} (hpiece₁ : piece₁ ≠ [])
    (hpiece₂ : piece₂ ≠ [])
    (hends : ∀ m < n, l.PassEnds c source (l.afterPasses c source t m))
    (hstays₁ : l.Stays c source t ⟨p₁, p₁ + piece₁.length⟩ n)
    (hstays₂ : l.Stays c source t ⟨p₂, p₂ + piece₂.length⟩ n) (h : t.HasAt p₁ piece₁)
    (horder : p₁ + piece₁.length ≤ p₂) :
    (l.follow c source t ⟨p₁, p₁ + piece₁.length⟩ n).stop ≤
      (l.follow c source t ⟨p₂, p₂ + piece₂.length⟩ n).start := by
  induction n with
  | zero => exact horder
  | succ n ih =>
    have hends' : ∀ m < n, l.PassEnds c source (l.afterPasses c source t m) :=
      fun m hm => hends m (Nat.lt_succ_of_lt hm)
    have hstays₁' : l.Stays c source t ⟨p₁, p₁ + piece₁.length⟩ n :=
      fun m hm => hstays₁ m (Nat.lt_succ_of_lt hm)
    have hstays₂' : l.Stays c source t ⟨p₂, p₂ + piece₂.length⟩ n :=
      fun m hm => hstays₂ m (Nat.lt_succ_of_lt hm)
    have hpos := List.length_pos_iff.mpr hpiece₂
    rw [follow_stop]
    refine carry_le (hstays₁ n (Nat.lt_succ_self n)) (hstays₂ n (Nat.lt_succ_self n)) hpiece₁
      (hasAt_follow hpiece₁ hends' hstays₁' h) (follow_stop n) ?_ (ih hends' hstays₁' hstays₂')
    rw [follow_stop]
    omega

theorem seenThrough_pass (l : Lowering) (c : Cache) (t : Text) (source : DocumentId) :
    l.resolver.collection.seenThrough (l.pass c t source).2 =
      l.resolver.collection.seenThrough c := by
  unfold pass Weaver.weave
  cases h : l.lowerer.weave? t source [source] c with
  | none => rfl
  | some out => exact Weaver.seenThrough_weave? l.finds_lowerer h

theorem passText_congr {c' : Cache}
    (hc : l.resolver.collection.seenThrough c' = l.resolver.collection.seenThrough c) :
    l.passText c' source t = l.passText c source t := by
  unfold passText pass Weaver.weave
  cases h : l.lowerer.weave? t source [source] c with
  | some out =>
    obtain ⟨c'', h'⟩ := Weaver.weave?_congr l.finds_lowerer h hc
    rw [h']
    rfl
  | none =>
    cases h' : l.lowerer.weave? t source [source] c' with
    | none => rfl
    | some out =>
      obtain ⟨c'', h''⟩ := Weaver.weave?_congr l.finds_lowerer h' hc.symm
      rw [h] at h''
      cases h''

/-- Passes repeated until one changes nothing give the text after the passes made. -/
theorem settle_text {left made : Nat} {c' : Cache}
    (hc : l.resolver.collection.seenThrough c' = l.resolver.collection.seenThrough c) :
    made ≤ (l.settle source left made t c').1.passes ∧
      (l.settle source left made t c').1.passes ≤ made + left ∧
        (l.settle source left made t c').1.text =
          l.afterPasses c source t ((l.settle source left made t c').1.passes - made) := by
  induction left generalizing made t c' with
  | zero => simp [settle, afterPasses]
  | succ left ih =>
    have hnext : (l.pass c' t source).1 = l.passText c source t := passText_congr hc
    rw [settle]
    simp only
    split
    · rename_i hsame
      refine ⟨Nat.le_succ _, by simp, ?_⟩
      rw [Nat.add_sub_cancel_left]
      exact hsame.symm.trans hnext
    · have hc' := (seenThrough_pass l c' t source).trans hc
      obtain ⟨hle, hle', htext⟩ := @ih (l.pass c' t source).1 (made + 1) _ hc'
      refine ⟨by omega, by omega, ?_⟩
      rw [htext, hnext]
      unfold afterPasses
      rw [← Function.iterate_succ_apply]
      congr 1
      rw [hnext] at hle
      omega

/-- **What lowering gives** is the text after the passes made. -/
theorem lower_text (l : Lowering) (c : Cache) (t : Text) (source : DocumentId) :
    (l.lower c t source).1.text =
      l.afterPasses c source t (l.lower c t source).1.passes :=
  (@settle_text l c source t passLimit 0 c rfl).2.2

/-- What passes lead to depends on the cache only through what is seen. -/
theorem settle_congr {left made : Nat} {c' : Cache}
    (hc : l.resolver.collection.seenThrough c' = l.resolver.collection.seenThrough c) :
    (l.settle source left made t c').1 = (l.settle source left made t c).1 := by
  induction left generalizing made t c' c with
  | zero => rfl
  | succ left ih =>
    have hnext : (l.pass c' t source).1 = (l.pass c t source).1 := passText_congr hc
    have hseen := (seenThrough_pass l c' t source).trans
      (hc.trans (seenThrough_pass l c t source).symm)
    unfold settle
    simp only [hnext]
    split
    · rfl
    · exact ih hseen

/-- Passes end with one that changes nothing, or at the limit. -/
theorem passText_of_settle {left made : Nat} {c' : Cache}
    (hc : l.resolver.collection.seenThrough c' = l.resolver.collection.seenThrough c) :
    l.passText c source (l.settle source left made t c').1.text =
        (l.settle source left made t c').1.text ∨
      (l.settle source left made t c').1.passes = made + left := by
  induction left generalizing made t c' with
  | zero => exact .inr rfl
  | succ left ih =>
    have hnext : (l.pass c' t source).1 = l.passText c source t := passText_congr hc
    rw [settle]
    simp only
    split
    · rename_i hsame
      exact .inl (hnext.symm.trans hsame)
    · rw [show made + (left + 1) = made + 1 + left by omega]
      exact ih ((seenThrough_pass l c' t source).trans hc)

/-- A text that a pass does not change is what lowering gives, if the passes get there. -/
theorem lower_text_of_fixed {n : Nat} (hn : n ≤ passLimit)
    (h : l.passText c source (l.afterPasses c source t n) = l.afterPasses c source t n) :
    (l.lower c t source).1.text = l.afterPasses c source t n := by
  have hstays : ∀ {k m}, k ≤ m →
      l.passText c source (l.afterPasses c source t k) = l.afterPasses c source t k →
        l.afterPasses c source t m = l.afterPasses c source t k := by
    intro k m hkm hfixed
    obtain ⟨d, rfl⟩ := Nat.exists_eq_add_of_le hkm
    rw [← afterPasses_add]
    exact Function.iterate_fixed hfixed d
  have htext := lower_text l c t source
  rcases Nat.le_total n (l.lower c t source).1.passes with hle | hle
  · rw [htext, hstays hle h]
  · rcases @passText_of_settle l c source t passLimit 0 c rfl with hfixed | hlimit
    · have hfixed : l.passText c source (l.lower c t source).1.text =
        (l.lower c t source).1.text := hfixed
      rw [htext] at hfixed ⊢
      exact (hstays hle hfixed).symm
    · have hlimit : (l.lower c t source).1.passes = 0 + passLimit := hlimit
      rw [htext, show (l.lower c t source).1.passes = n by omega]

/-! ### Collections in memory -/

section

variable (g : MemoryVault) (p : Profile) (listings : Bool)

/-- A pass over a note of a collection in memory ends. -/
theorem passEnds_of_vault (c : Cache) (source : DocumentId) (t : Text) :
    (Lowering.of g.toCollection p listings).PassEnds c source t :=
  Weaver.weave?_isSome (finds_lowerer _)
    (Collection.finite_readable_seenThrough g.finite_readable c) _ _ _ rfl

/-- A pass that no note comes into, with nothing remembered yet. -/
theorem passText_of_vault {source : DocumentId} {t t' : Text}
    (hasks : ∀ site ∈ (Lowering.of g.toCollection p listings).sitesIn t source, site.asks = none)
    (h : t.splice (((Lowering.of g.toCollection p listings).sitesIn t source).filterMap fun site =>
      (site.construct.map (Lowering.of g.toCollection p listings).render).map (site.span, ·)) =
        t') :
    (Lowering.of g.toCollection p listings).passText .empty source t = t' := by
  rw [passText_eq_render (passEnds_of_vault g p listings .empty source t) (by simpa using hasks),
    seenThrough_empty, h]

end

end Lowering

end NotePress
