import NotePress.Proofs.Passes

/-!
# Fence bodies through lowering

The insides of a text's fences are followed through the passes that are made (`Lowering.track`). As
long as every pass spares them they stand in the text, verbatim and in order. The first pass always
spares them. A later one need not: a listing shields nothing, so an embed in its body becomes an
image, and what a pass brings in may end a fence early or begin another one.

`fence_bodies_occur` is the exact condition: bodies are kept just when each pass but the first finds
them sheltered. `listing_body_rewritten` is a listing for which it fails.
-/

namespace NotePress

/-- Pieces occur in a text one behind the other. -/
def OccurInOrder : List Text → Text → Prop
  | [], _ => True
  | piece :: rest, t => ∃ front back, t = front ++ piece ++ back ∧ OccurInOrder rest back

/-- A fence body, and the position of the line break in front of it. -/
structure BodyPlace where
  start : Nat
  body : Text

namespace BodyPlace

/-- The line break with the body behind it. -/
def piece (p : BodyPlace) : Text := '\n' :: p.body

def span (p : BodyPlace) : Span := ⟨p.start, p.start + p.piece.length⟩

theorem piece_ne_nil (p : BodyPlace) : p.piece ≠ [] := List.cons_ne_nil _ _

/-- Bodies stand in a text at their places, in order. -/
structure Stand (t : Text) (places : List BodyPlace) : Prop where
  hasAt : ∀ p ∈ places, t.HasAt p.start p.piece
  order : places.Pairwise fun p q => p.span.stop ≤ q.span.start

theorem Stand.getElem? {t : Text} {places : List BodyPlace} (h : Stand t places) {p : BodyPlace}
    (hp : p ∈ places) : t[p.span.start]? = some '\n' := by
  obtain ⟨back, hback⟩ := h.hasAt p hp
  rw [← Nat.add_zero p.span.start, ← List.getElem?_drop]
  show (t.drop p.start)[0]? = _
  rw [← hback]
  rfl

/-- Bodies that stand at places occur in order. -/
theorem Stand.occurInOrder {t : Text} {places : List BodyPlace} (h : Stand t places) {pos : Nat}
    (hpos : ∀ p ∈ places, pos ≤ p.start) : OccurInOrder (places.map (·.body)) (t.drop pos) := by
  induction places generalizing pos with
  | nil => trivial
  | cons p rest ih =>
    obtain ⟨hlater, horder⟩ := List.pairwise_cons.mp h.order
    have hstart := hpos p (List.mem_cons_self ..)
    obtain ⟨back, hback⟩ := h.hasAt p (List.mem_cons_self ..)
    refine ⟨t.slice pos p.start ++ ['\n'], back, ?_, ?_⟩
    · rw [← Text.slice_append_drop t hstart, ← hback]
      simp [piece]
    · have hdrop : t.drop p.span.stop = back := by
        show t.drop (p.start + p.piece.length) = back
        rw [← List.drop_drop, ← hback, List.drop_left]
      rw [← hdrop]
      exact ih ⟨fun q hq => h.hasAt q (List.mem_cons_of_mem _ hq), horder⟩ hlater

end BodyPlace

/-- The bodies of the fences of a text, where they stand. -/
def Text.bodyPlaces (t : Text) : List BodyPlace :=
  t.fences.map fun f => ⟨(f.inside t).start, f.body⟩

theorem Text.stand_bodyPlaces (t : Text) : BodyPlace.Stand t t.bodyPlaces := by
  constructor
  · intro p hp
    obtain ⟨f, hf, rfl⟩ := List.mem_map.mp hp
    exact (stands_of_mem_fences hf).inside
  · refine List.pairwise_map.mpr (t.fences_pairwise.imp_of_mem fun hf hf' hlt => ?_)
    have hstop := (stands_of_mem_fences hf).stop_le
    have hstart := (stands_of_mem_fences hf').start_lt
    exact Nat.le_trans hstop (Nat.le_of_lt (Nat.lt_trans hlt hstart))

namespace Lowering

variable {l : Lowering} {c : Cache} {source : DocumentId} {t : Text} {n : Nat}

/-- Where the bodies of the fences stand after some passes that spare them. -/
def track (l : Lowering) (c : Cache) (source : DocumentId) (t : Text) (n : Nat) : List BodyPlace :=
  t.bodyPlaces.map fun p => ⟨(l.follow c source t p.span n).start, p.body⟩

/-- A pass spares all bodies, where they stand after the passes before it. -/
def SparesAll (l : Lowering) (c : Cache) (source : DocumentId) (t : Text) (n : Nat) : Prop :=
  ∀ p ∈ l.track c source t n,
    (l.seenThrough c).Spares (l.afterPasses c source t n) source p.span

/-- A pass finds all bodies sheltered, where they stand after the passes before it. -/
def SheltersAll (l : Lowering) (c : Cache) (source : DocumentId) (t : Text) (n : Nat) : Prop :=
  ∀ p ∈ l.track c source t n,
    (l.seenThrough c).Shelters (l.afterPasses c source t n) source p.span

theorem map_body_track (l : Lowering) (c : Cache) (source : DocumentId) (t : Text) (n : Nat) :
    (l.track c source t n).map (·.body) = t.fences.map (·.body) := by
  unfold track Text.bodyPlaces
  rw [List.map_map, List.map_map]
  rfl

/-- A body that all passes spare stays. -/
theorem stays_of_sparesAll (hspares : ∀ m < n, l.SparesAll c source t m) {p : BodyPlace}
    (hp : p ∈ t.bodyPlaces) : l.Stays c source t p.span n := by
  intro m hm
  have hspared := hspares m hm _ (List.mem_map_of_mem hp)
  have hspan : (⟨(l.follow c source t p.span m).start, p.body⟩ : BodyPlace).span =
      l.follow c source t p.span m := by
    have hstop := @follow_stop l c source t p.start p.piece m
    exact congrArg (Span.mk (l.follow c source t p.span m).start) hstop.symm
  rwa [hspan] at hspared

/-- **Bodies that every pass spares** stand in the text, in order. -/
theorem stand_track (hends : ∀ m < n, l.PassEnds c source (l.afterPasses c source t m))
    (hspares : ∀ m < n, l.SparesAll c source t m) :
    BodyPlace.Stand (l.afterPasses c source t n) (l.track c source t n) := by
  have hstand := t.stand_bodyPlaces
  constructor
  · intro q hq
    obtain ⟨p, hp, rfl⟩ := List.mem_map.mp hq
    exact hasAt_follow p.piece_ne_nil hends (stays_of_sparesAll hspares hp) (hstand.hasAt p hp)
  · refine List.pairwise_map.mpr (hstand.order.imp_of_mem fun {p q} hp hq hle => ?_)
    have hstop := @follow_stop l c source t p.start p.piece n
    have hfollow := follow_le p.piece_ne_nil q.piece_ne_nil hends (stays_of_sparesAll hspares hp)
      (stays_of_sparesAll hspares hq) (hstand.hasAt p hp) hle
    rwa [hstop] at hfollow

theorem sparesAll_iff_sheltersAll
    (h : BodyPlace.Stand (l.afterPasses c source t n) (l.track c source t n)) :
    l.SparesAll c source t n ↔ l.SheltersAll c source t n :=
  forall₂_congr fun _ hp => spares_iff_shelters (h.getElem? hp)

/-- The first pass finds all bodies sheltered. -/
theorem sheltersAll_zero (l : Lowering) (c : Cache) (source : DocumentId) (t : Text) :
    l.SheltersAll c source t 0 := by
  intro q hq
  obtain ⟨p, hp, rfl⟩ := List.mem_map.mp hq
  obtain ⟨f, hf, rfl⟩ := List.mem_map.mp hp
  exact shelters_inside (l.seenThrough c) source hf

/-- **Fence bodies occur** in what lowering gives, verbatim and in order, and no pass touches them,
just when every pass but the first finds them sheltered. -/
theorem fence_bodies_occur (l : Lowering) (c : Cache) (t : Text) (source : DocumentId)
    (hends : ∀ n < (l.lower c t source).1.passes,
      l.PassEnds c source (l.afterPasses c source t n)) :
    (OccurInOrder (t.fences.map (·.body)) (l.lower c t source).1.text ∧
      ∀ n < (l.lower c t source).1.passes, l.SparesAll c source t n) ↔
    ∀ n < (l.lower c t source).1.passes, 0 < n → l.SheltersAll c source t n := by
  constructor
  · rintro ⟨-, hspares⟩ n hn -
    refine (sparesAll_iff_sheltersAll ?_).mp (hspares n hn)
    exact stand_track (fun m hm => hends m (Nat.lt_trans hm hn)) fun m hm =>
      hspares m (Nat.lt_trans hm hn)
  · intro hshelters
    have hspares : ∀ n < (l.lower c t source).1.passes, l.SparesAll c source t n := by
      intro n
      induction n using Nat.strong_induction_on with
      | _ n ih =>
        intro hn
        have hstand := stand_track (fun m hm => hends m (Nat.lt_trans hm hn)) fun m hm =>
          ih m hm (Nat.lt_trans hm hn)
        refine (sparesAll_iff_sheltersAll hstand).mpr ?_
        rcases Nat.eq_zero_or_pos n with rfl | hpos
        · exact sheltersAll_zero l c source t
        · exact hshelters n hn hpos
    refine ⟨?_, hspares⟩
    rw [lower_text, ← map_body_track l c source t (l.lower c t source).1.passes]
    have hall := (stand_track hends hspares).occurInOrder fun _ _ => Nat.zero_le _
    rwa [List.drop_zero] at hall

end Lowering

/-! ### A listing whose body is lowered -/

theorem OccurInOrder.occursIn {piece t : Text} {rest : List Text}
    (h : OccurInOrder (piece :: rest) t) : Text.occursIn piece t := by
  obtain ⟨front, back, rfl, -⟩ := h
  induction front with
  | nil =>
    cases piece with
    | nil => cases back <;> simp [Text.occursIn, Text.startsWith]
    | cons c cs => simp [Text.occursIn, Text.startsWith]
  | cons c cs ih => exact Bool.or_eq_true_iff.mpr (.inr ih)

/-- A collection with one picture. -/
def plotVault : MemoryVault := ⟨[(.ofPath "plot.png".toList, [])], []⟩

/-- Lowering for that collection, without a width for pictures. -/
def plotLowering : Lowering := Lowering.of plotVault.toCollection { scaleImages := false } true

/-- A fence with a language around an embed of the picture. -/
def plotFence : Text := "\x60\x60\x60py\n![[plot.png]]\n\x60\x60\x60".toList

/-- What lowering makes of it. -/
def plotListing : Text :=
  "\\begin\x7blstlisting\x7d[language=Python]\n![](plot.png)\n\\end\x7blstlisting\x7d".toList

/-- **The body of a listing is lowered** by the second pass. -/
theorem listing_body_rewritten :
    (plotLowering.lower .empty plotFence (.ofPath "main.md".toList)).1.text = plotListing ∧
      ¬OccurInOrder (plotFence.fences.map (·.body))
        (plotLowering.lower .empty plotFence (.ofPath "main.md".toList)).1.text := by
  have htwice : plotLowering.afterPasses .empty (.ofPath "main.md".toList) plotFence 2 =
      plotListing := by
    have honce : plotLowering.passText .empty (.ofPath "main.md".toList) plotFence =
        listingOf [] (some "Python".toList) none none "![[plot.png]]".toList :=
      Lowering.passText_of_vault plotVault _ _ (by decide +kernel) (by decide +kernel)
    show plotLowering.passText .empty _ (plotLowering.passText .empty _ plotFence) = _
    rw [honce]
    exact Lowering.passText_of_vault plotVault _ _ (by decide +kernel) (by decide +kernel)
  have htext : (plotLowering.lower .empty plotFence (.ofPath "main.md".toList)).1.text =
      plotListing := by
    rw [Lowering.lower_text_of_fixed (n := 2) (by decide) ?_, htwice]
    rw [htwice]
    exact Lowering.passText_of_vault plotVault _ _ (by decide +kernel) (by decide +kernel)
  refine ⟨htext, fun h => ?_⟩
  rw [htext, show plotFence.fences.map (·.body) = ["![[plot.png]]".toList] by decide +kernel] at h
  exact absurd h.occursIn (by decide +kernel)

/-- Bodies without embeds are kept; here a listing of one line. -/
theorem fence_bodies_occur_line :
    let source := DocumentId.ofPath "main.md".toList
    let t : Text := "\x60\x60\x60py\nx = 1\n\x60\x60\x60".toList
    (OccurInOrder (t.fences.map (·.body)) (plotLowering.lower .empty t source).1.text ∧
      ∀ n < (plotLowering.lower .empty t source).1.passes,
        plotLowering.SparesAll .empty source t n) ↔
    ∀ n < (plotLowering.lower .empty t source).1.passes, 0 < n →
      plotLowering.SheltersAll .empty source t n :=
  Lowering.fence_bodies_occur plotLowering .empty _ _ fun _ _ =>
    Lowering.passEnds_of_vault plotVault _ _ _ _ _

end NotePress
