import NotePress.Proofs.Copying
import NotePress.Proofs.Edits

/-!
# Expanding is editing in place

An expansion edits a text at its embeds outside the fences, in place and in order
(`Resolver.edited_expandVisited`), so the fences are still there (`Resolver.fences_occur`). An embed
that means no note, or one that cannot be read, is among what is copied (`Resolver.Kept`); a text
with no other embeds is expanded to itself.
-/

namespace NotePress

namespace Resolver

/-- **Why an embed is kept**, with the documents that its text is reached through. -/
inductive Kept (r : Resolver) (source : DocumentId) (above : List DocumentId) (e : Hit Embed) :
    Prop where
  /-- What is in the brackets is no reference. -/
  | unparsed (hparse : Reference.parse? e.value.inner = none)
  /-- The reference means nothing. -/
  | unresolved {reference : Reference} (hparse : Reference.parse? e.value.inner = some reference)
      (hmeans : r.meaning reference source = none)
  /-- The reference means a document that is not a note. -/
  | noNote {reference : Reference} {target : DocumentId}
      (hparse : Reference.parse? e.value.inner = some reference)
      (hmeans : r.meaning reference source = some target) (hnote : target.isNote = false)
  /-- The note is not on the way down, and cannot be read. -/
  | unreadable {reference : Reference} {target : DocumentId} {cause : AccessError}
      (hparse : Reference.parse? e.value.inner = some reference)
      (hmeans : r.meaning reference source = some target) (hnew : target ∉ source :: above)
      (hread : r.collection.read target = .error cause)

/-- What stands at an embed after an expansion: what is put in, or else the text that stood
there. -/
def becomes (r : Resolver) (c : Cache) (t : Text) (source : DocumentId) (above : List DocumentId)
    (e : Hit Embed) : Text :=
  (r.inserted c source above e).getD (t.slice e.span.start e.span.stop)

/-- An expansion ends. -/
def ExpansionEnds (r : Resolver) (c : Cache) (t : Text) (source : DocumentId)
    (above : List DocumentId) : Prop :=
  (r.expander.weave? t source (source :: above) c).isSome

variable {r : Resolver} {c : Cache} {t : Text} {source : DocumentId} {above : List DocumentId}
  {e : Hit Embed}

/-! ### What is kept -/

/-- The part of a note that an embed means is found step by step. -/
theorem noteMeant_eq_some_iff {target : DocumentId} {part : Part} :
    r.noteMeant source e = some (target, part) ↔
      ∃ reference, Reference.parse? e.value.inner = some reference ∧
        r.meaning reference source = some target ∧ target.isNote = true ∧
          reference.part = part := by
  unfold noteMeant siteOf ExpansionSite.asks
  cases hparse : Reference.parse? e.value.inner with
  | none => simp
  | some reference =>
    cases hmeans : r.meaning reference source with
    | none => simp [hmeans]
    | some id =>
      simp only [Option.bind_some, hmeans, Option.ite_none_right_eq_some, Option.some.injEq,
        Prod.mk.injEq, exists_eq_left']
      constructor
      · rintro ⟨hnote, rfl, hpart⟩
        exact ⟨rfl, hnote, hpart⟩
      · rintro ⟨rfl, hnote, hpart⟩
        exact ⟨hnote, rfl, hpart⟩

theorem leaves_iff_kept : r.Leaves source above e ↔ r.Kept source above e := by
  unfold Leaves
  constructor
  · intro h
    cases hparse : Reference.parse? e.value.inner with
    | none => exact .unparsed hparse
    | some reference =>
      cases hmeans : r.meaning reference source with
      | none => exact .unresolved hparse hmeans
      | some target =>
        cases hnote : target.isNote with
        | false => exact .noNote hparse hmeans hnote
        | true =>
          obtain ⟨hnew, cause, hread⟩ :=
            h target _ (noteMeant_eq_some_iff.mpr ⟨reference, hparse, hmeans, hnote, rfl⟩)
          exact .unreadable hparse hmeans hnew hread
  · intro h target part hmeant
    obtain ⟨reference, hparse, hmeans, hnote, -⟩ := noteMeant_eq_some_iff.mp hmeant
    cases h with
    | unparsed hparse' =>
      rw [hparse] at hparse'
      cases hparse'
    | unresolved hparse' hmeans' =>
      cases hparse.symm.trans hparse'
      cases hmeans.symm.trans hmeans'
    | noNote hparse' hmeans' hnote' =>
      cases hparse.symm.trans hparse'
      cases hmeans.symm.trans hmeans'
      cases hnote.symm.trans hnote'
    | unreadable hparse' hmeans' hnew hread =>
      cases hparse.symm.trans hparse'
      cases hmeans.symm.trans hmeans'
      exact ⟨hnew, _, hread⟩

/-- Nothing is put in for an embed that is kept, and for no other. -/
theorem inserted_eq_none_iff_kept :
    r.inserted c source above e = none ↔ (r.seenThrough c).Kept source above e :=
  inserted_eq_none_iff.trans leaves_iff_kept

/-- An embed that is kept stands there as it is written. -/
theorem becomes_of_kept (he : e ∈ t.openEmbeds) (hkept : (r.seenThrough c).Kept source above e) :
    r.becomes c t source above e = t.slice e.span.start e.span.stop ∧
      t.slice e.span.start e.span.stop = e.value.text := by
  obtain ⟨hstands, hstop, -⟩ := hasAt_of_mem_scan_embed (mem_scan_of_mem_openEmbeds he)
  rw [becomes, inserted_eq_none_iff_kept.mpr hkept, hstop]
  exact ⟨rfl, hstands.slice_eq⟩

/-- An expansion ends, and gives the text itself, if all embeds are kept. -/
theorem expandVisited_of_kept (h : ∀ e ∈ t.openEmbeds, (r.seenThrough c).Kept source above e) :
    r.ExpansionEnds c t source above ∧
      (r.expandVisited c t source (source :: above)).1.text = t := by
  have hends : r.ExpansionEnds c t source above := by
    refine Weaver.weave?_isSome_of_granted r.finds_expander rfl
      fun site hsite target content hok => ?_
    -- nothing that is kept is granted a note
    obtain ⟨e, he, rfl⟩ := List.mem_map.mp hsite
    obtain ⟨part, raw, hmeant, -, hread, -⟩ := Weaver.answer_eq_ok_iff.mp hok
    obtain ⟨-, cause, herror⟩ := leaves_iff_kept.mpr (h e he) target part hmeant
    cases hread.symm.trans herror
  refine ⟨hends, ?_⟩
  rw [expandVisited_text hends, insertions, List.filterMap_eq_nil_iff.mpr fun e he => by
    rw [inserted_eq_none_iff_kept.mpr (h e he)]; rfl]
  exact t.splice_nil

/-! ### What is replaced -/

/-- **An expansion edits the text at its embeds.** -/
theorem edited_expandVisited (hends : r.ExpansionEnds c t source above) :
    Text.Edited 0 t (t.openEmbeds.map fun e => (e.span, r.becomes c t source above e))
      (r.expandVisited c t source (source :: above)).1.text := by
  have hfits : t.Fits ((t.openEmbeds.map fun e =>
      (e.span, r.becomes c t source above e)).map (·.1)) := by
    rw [List.map_map]
    exact openEmbeds_fits t
  rw [Text.edited_iff hfits, expandVisited_text hends]
  exact Text.splice_filterMap (openEmbeds_fits t)

/-- An embed outside the fences meets none of them. -/
theorem apart_of_mem_openEmbeds (he : e ∈ t.openEmbeds) {f : Fence} (hf : f ∈ t.fences) :
    e.span.Apart f.span := by
  have hopen := (List.mem_filter.mp he).2
  have hout : ¬(f.span.start ≤ e.span.start ∧ e.span.start < f.span.stop) := fun hin => by
    rw [Lowering.isFenced_iff.mpr ⟨f, hf, hin⟩] at hopen
    exact absurd hopen Bool.false_ne_true
  rcases (Text.stands_of_mem_fences hf).not_reached marked_recogniseEmbed
    (mem_scan_of_mem_openEmbeds he) with hstart | hstop
  · exact .inr (by omega)
  · exact .inl hstop

/-- **The fences of the text are still there.** -/
theorem fences_occur (hends : r.ExpansionEnds c t source above) :
    OccurInOrder (t.fences.map fun f => t.slice f.span.start f.span.stop)
      (r.expandVisited c t source (source :: above)).1.text := by
  rw [expandVisited_text hends]
  have hoccur := Text.occurInOrder_splice (fits_insertions r c t source above) t.fences_fits ?_
  · rwa [List.map_map] at hoccur
  · intro s hs part hpart
    obtain ⟨f, hf, rfl⟩ := List.mem_map.mp hs
    obtain ⟨e, he, hpart⟩ := List.mem_filterMap.mp hpart
    obtain ⟨_, -, rfl⟩ := Option.map_eq_some_iff.mp hpart
    exact apart_of_mem_openEmbeds he hf

end Resolver

/-- **Expanding is editing in place.** Where all documents that can be read are finitely many an
expansion ends. An expansion that ends edits the text at its embeds outside the fences, each once
and in order, and copies all else; so every fence still stands there as it was, in order. An embed
that is no reference, means no document, means no note, or means a note that is not on the way down
and cannot be read is copied as it is written, with its quote prefix; and where all embeds are such
the expansion ends and gives the text itself. -/
theorem expanded_in_place (r : Resolver) (c : Cache) (t : Text) (source : DocumentId)
    (above : List DocumentId) :
    let out := (r.expandVisited c t source (source :: above)).1.text
    (r.collection.readable.Finite → r.ExpansionEnds c t source above) ∧
    (r.ExpansionEnds c t source above →
      Text.Edited 0 t (t.openEmbeds.map fun e => (e.span, r.becomes c t source above e)) out ∧
        OccurInOrder (t.fences.map fun f => t.slice f.span.start f.span.stop) out) ∧
    (∀ e ∈ t.openEmbeds, (r.seenThrough c).Kept source above e →
      r.becomes c t source above e = t.slice e.span.start e.span.stop ∧
        t.slice e.span.start e.span.stop = e.value.quote ++ brackets e.value.inner) ∧
    ((∀ e ∈ t.openEmbeds, (r.seenThrough c).Kept source above e) →
      r.ExpansionEnds c t source above ∧ out = t) :=
  ⟨fun hfin => Weaver.weave?_isSome r.finds_expander
      (Collection.finite_readable_seenThrough hfin c) t source (source :: above) rfl,
    fun hends => ⟨Resolver.edited_expandVisited hends, Resolver.fences_occur hends⟩,
    fun _ he hkept => Resolver.becomes_of_kept he hkept, Resolver.expandVisited_of_kept⟩

/-- A quoted embed of a note that is not there, and one of a picture in the same line. -/
def keptText : Text := "> ![[gone]] ![[p.png]]".toList

/-- A collection with the picture only. -/
def keptResolver : Resolver :=
  Resolver.within (MemoryVault.toCollection ⟨[(.ofPath "p.png".toList, [])], []⟩) none

theorem kept_of_mem_keptText {e : Hit Embed} (he : e ∈ keptText.openEmbeds) :
    (keptResolver.seenThrough .empty).Kept (.ofPath "main.md".toList) [] e := by
  rw [show keptText.openEmbeds = [⟨⟨0, 11⟩, ⟨"> ".toList, "gone".toList⟩⟩,
    ⟨⟨12, 22⟩, ⟨[], "p.png".toList⟩⟩] from rfl] at he
  rw [Resolver.seenThrough_empty]
  rcases List.mem_cons.mp he with rfl | he
  · exact .unresolved rfl (by decide +kernel)
  · obtain rfl := List.mem_singleton.mp he
    exact .noNote rfl (by decide +kernel : _ = some (.ofPath "p.png".toList)) (by decide +kernel)

/-- A text whose embeds are all kept. -/
theorem expanded_in_place_kept :
    (∀ e ∈ keptText.openEmbeds,
      (keptResolver.seenThrough .empty).Kept (.ofPath "main.md".toList) [] e) ∧
    keptResolver.ExpansionEnds .empty keptText (.ofPath "main.md".toList) [] ∧
    (keptResolver.expand .empty keptText (.ofPath "main.md".toList)).1.text = keptText :=
  ⟨fun _ => kept_of_mem_keptText,
    (expanded_in_place keptResolver .empty keptText (.ofPath "main.md".toList) []).2.2.2
      fun _ => kept_of_mem_keptText⟩

end NotePress
