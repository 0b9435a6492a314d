import NotePress.Proofs.Leftovers
import NotePress.Proofs.Pictures

/-!
# What is reported

A reference can fail in three ways: it means no document, the note it means cannot be read, or the
note has no such part. An expansion warns of every such fault that it encounters, wherever on the
way down, and of nothing else but cycles (`Resolver.warning_mem`, `Resolver.exists_of_warning_mem`).

The passes behind it look references up again, from another document and below the search
directory, and find note images, which an expansion does not look for. They leave the text as it is
or put a link there, and warn of nothing. So what a pass encounters is reported just when the
expansion encountered the like (`faults_reported_iff`), which is not always so
(`note_image_unreported`).
-/

namespace NotePress

/-- What is wrong with a reference that is looked up and does not come back to where it stands. -/
inductive Fault where
  /-- It means no document. -/
  | unresolved (source : DocumentId) (reference : Reference)
  /-- The note that it means cannot be read. -/
  | unreadable (target : DocumentId) (cause : AccessError)
  /-- The note that it means has no such part. -/
  | partMissing (target : DocumentId) (part : Part)

namespace Fault

/-- The warning about a fault. -/
def warning : Fault → Warning
  | .unresolved source reference => .unresolved source reference.render
  | .unreadable target cause => .readFailed target cause.message
  | .partMissing target part => .sectionNotFound target (part.name?.getD [])

/-- Whether a warning is about a fault: it names the same reference, wherever that stands, or says
the same of the same note. -/
def Matches : Fault → Warning → Prop
  | .unresolved _ reference, .unresolved _ shown => shown = reference.render
  | fault, w => w = fault.warning

theorem matches_warning (fault : Fault) : fault.Matches fault.warning := by
  cases fault <;> rfl

/-- A warning about a fault is neither about a cycle nor about the number of passes. -/
theorem Matches.kind {fault : Fault} {w : Warning} (h : fault.Matches w) :
    w.isCycle = false ∧ ∀ passes, w ≠ .notConverged passes := by
  cases fault <;> cases w <;> simp_all [Matches, warning, Warning.isCycle]

end Fault

/-- What is wrong with asking for a part of a note. -/
def Collection.partFault? (g : Collection) (visited : List DocumentId) (target : DocumentId)
    (part : Part) : Option Fault :=
  match g.readPart visited target part with
  | .error (.unreadable cause) => some (.unreadable target cause)
  | .error .partMissing => some (.partMissing target part)
  | _ => none

/-! ### Expansions -/

namespace Resolver

/-- What is wrong with an embed in `source` when it is expanded. -/
def faultAt? (r : Resolver) (visited : List DocumentId) (source : DocumentId) (e : Hit Embed) :
    Option Fault :=
  (Reference.parse? e.value.inner).bind fun reference =>
    match r.meaning reference source with
    | none => some (.unresolved source reference)
    | some target =>
      if target.isNote then r.collection.partFault? visited target reference.part else none

/-- A fault that an expansion encounters: at an embed outside the fences of the text, or of a part
that it brings in. -/
inductive Encounters (r : Resolver) : Text → List DocumentId → Fault → Prop where
  | here {t : Text} {source : DocumentId} {above : List DocumentId} {e : Hit Embed} {fault : Fault}
      (hembed : e ∈ t.openEmbeds) (hfault : r.faultAt? (source :: above) source e = some fault) :
      Encounters r t (source :: above) fault
  | down {t content : Text} {source target : DocumentId} {above : List DocumentId} {e : Hit Embed}
      {part : Part} {fault : Fault} (hembed : e ∈ t.openEmbeds)
      (hmeans : r.noteMeant source e = some (target, part)) (hnew : target ∉ source :: above)
      (hreads : r.Reads target part content)
      (rest : Encounters r content (target :: source :: above) fault) :
      Encounters r t (source :: above) fault

variable {r : Resolver} {c : Cache} {t : Text} {source : DocumentId} {above : List DocumentId}

/-- What an embed leaves behind into which no note is brought: a warning about its fault, if it has
one, unless it comes back. -/
theorem filter_warnings_without {e : Hit Embed} {why : Option Refusal}
    (h : r.expander.answer (source :: above) (r.siteOf source e) r.collection = .error why) :
    ((r.siteOf source e).without source why).2.filter (!·.isCycle) =
      ((r.faultAt? (source :: above) source e).map Fault.warning).toList := by
  unfold Weaver.answer at h
  unfold faultAt? Collection.partFault?
  simp only [expander, siteOf, ExpansionSite.asks, ExpansionSite.without] at h ⊢
  cases hparse : Reference.parse? e.value.inner with
  | none => rfl
  | some reference =>
    cases hmeans : r.meaning reference source with
    | none => simp [hmeans, Fault.warning, Warning.isCycle]
    | some target =>
      by_cases hnote : target.isNote
      · simp only [hparse, hmeans, Option.bind_some, hnote, if_true] at h ⊢
        cases hread : r.collection.readPart (source :: above) target reference.part with
        | ok content =>
          rw [hread] at h
          cases h
        | error refusal =>
          rw [hread] at h
          cases h
          cases refusal <;> rfl
      · simp only [hparse, hmeans, Option.bind_some, hnote] at h ⊢
        cases h
        rfl

/-- An embed that a note is brought into has no fault. -/
theorem faultAt?_of_granted {e : Hit Embed} {target : DocumentId} {content : Text}
    (h : r.expander.answer (source :: above) (r.siteOf source e) r.collection =
      .ok (target, content)) : r.faultAt? (source :: above) source e = none := by
  unfold Weaver.answer at h
  unfold faultAt? Collection.partFault?
  simp only [expander, siteOf, ExpansionSite.asks] at h ⊢
  cases hparse : Reference.parse? e.value.inner with
  | none => rfl
  | some reference =>
    cases hmeans : r.meaning reference source with
    | none => simp [hparse, hmeans] at h
    | some id =>
      by_cases hnote : id.isNote
      · simp only [hparse, hmeans, Option.bind_some, hnote, if_true] at h ⊢
        cases hread : r.collection.readPart (source :: above) id reference.part with
        | ok found => rfl
        | error refusal =>
          rw [hread] at h
          cases h
      · simp [hmeans, hnote]

/-- The warnings of an expansion are those about its embeds. -/
theorem mem_warnings_iff {w : Warning}
    (h : (r.expander.weave? t source (source :: above) c).isSome) :
    w ∈ (r.expandVisited c t source (source :: above)).1.warnings ↔ ∃ e ∈ t.openEmbeds,
      w ∈ (r.expander.filled c source (source :: above) ((r.seenThrough c).siteOf source e)).2 := by
  rw [expandVisited, (Weaver.weave_eq r.finds_expander h).1]
  show w ∈ ((r.seenThrough c).sitesIn t source).flatMap _ ↔ _
  rw [sitesIn, List.flatMap_map, List.mem_flatMap]

/-- **Every fault that an expansion encounters is reported.** -/
theorem warning_mem {chain : List DocumentId} {fault : Fault}
    (h : (r.seenThrough c).Encounters t chain fault) : ∀ source above, chain = source :: above →
      (r.expander.weave? t source chain c).isSome →
        fault.warning ∈ (r.expandVisited c t source chain).1.warnings := by
  induction h with
  | @here t source above e fault hembed hfault =>
    rintro _ _ ⟨⟩ hends
    refine (mem_warnings_iff hends).mpr ⟨e, hembed, ?_⟩
    unfold Weaver.filled
    cases hanswer : r.expander.answer (source :: above) ((r.seenThrough c).siteOf source e)
        (r.expander.collection.seenThrough c) with
    | ok found => exact absurd (faultAt?_of_granted hanswer) (by simp [hfault])
    | error why =>
      have hmem : fault.warning ∈
          (((r.seenThrough c).siteOf source e).without source why).2.filter (!·.isCycle) := by
        rw [filter_warnings_without (r := r.seenThrough c) hanswer, hfault]
        exact List.mem_singleton_self _
      exact (List.mem_filter.mp hmem).1
  | @down t content source target above e part fault hembed hmeans hnew hreads _ ih =>
    rintro _ _ ⟨⟩ hends
    obtain ⟨raw, hread, hpart⟩ := hreads
    have hanswer : r.expander.answer (source :: above) ((r.seenThrough c).siteOf source e)
        (r.expander.collection.seenThrough c) = .ok (target, content) :=
      Weaver.answer_eq_ok_iff.mpr ⟨part, raw, hmeans, hnew, hread, hpart⟩
    have hinner := (Weaver.weave_eq r.finds_expander hends).2 _ (List.mem_map_of_mem hembed)
      target content hanswer
    refine (mem_warnings_iff hends).mpr ⟨e, hembed, ?_⟩
    rw [Weaver.filled, hanswer]
    exact ih target (source :: above) rfl hinner

/-- **An expansion reports nothing else** but cycles. -/
theorem exists_of_warning_mem (h : (r.expander.weave? t source (source :: above) c).isSome)
    {w : Warning} (hw : w ∈ (r.expandVisited c t source (source :: above)).1.warnings)
    (hkind : w.isCycle = false) :
    ∃ fault, (r.seenThrough c).Encounters t (source :: above) fault ∧ w = fault.warning := by
  refine Weaver.weave_induct r.finds_expander (P := fun t source visited =>
    ∀ above, visited = source :: above →
      ∀ w ∈ (r.expandVisited c t source visited).1.warnings, w.isCycle = false →
        ∃ fault, (r.seenThrough c).Encounters t visited fault ∧ w = fault.warning)
    ?_ h above rfl w hw hkind
  rintro t source _ hends ih above rfl w hw hkind
  obtain ⟨e, hembed, hw⟩ := (mem_warnings_iff hends).mp hw
  unfold Weaver.filled at hw
  cases hanswer : r.expander.answer (source :: above) ((r.seenThrough c).siteOf source e)
      (r.expander.collection.seenThrough c) with
  | error why =>
    rw [hanswer] at hw
    have hmem : w ∈ (((r.seenThrough c).siteOf source e).without source why).2.filter
        (!·.isCycle) := List.mem_filter.mpr ⟨hw, by rw [hkind]; rfl⟩
    rw [filter_warnings_without (r := r.seenThrough c) hanswer, Option.mem_toList] at hmem
    obtain ⟨fault, hfault, rfl⟩ := Option.map_eq_some_iff.mp hmem
    exact ⟨fault, .here hembed hfault, rfl⟩
  | ok found =>
    obtain ⟨target, content⟩ := found
    rw [hanswer] at hw
    obtain ⟨part, raw, hmeans, hnew, hread, hpart⟩ := Weaver.answer_eq_ok_iff.mp hanswer
    obtain ⟨fault, hfault, rfl⟩ := ih _ (List.mem_map_of_mem hembed) target content hanswer
      (source :: above) rfl w hw hkind
    exact ⟨fault, .down hembed hmeans hnew ⟨raw, hread, hpart⟩ hfault, rfl⟩

end Resolver

/-! ### Passes -/

namespace Lowering

/-- A fault that a pass encounters, in a text or in a note that it brings into it: an embed or a
note image outside the fences means no document and is left as it is, or a note cannot be brought in
and is linked. -/
inductive Encounters (l : Lowering) (c : Cache) : Text → List DocumentId → Fault → Prop where
  | embed {t : Text} {source : DocumentId} {above : List DocumentId}
      {h : Hit (Embed × Option Text)} {reference : Reference}
      (hhit : h ∈ t.scan recogniseAttributedEmbed) (hopen : ¬isFenced t.fences h.span.start)
      (hparse : Reference.parse? h.value.1.inner = some reference)
      (hmeans : (l.seenThrough c).resolver.meaning reference source = none)
      (hfree : ∀ site ∈ (l.seenThrough c).sitesIn t source, site.construct.isSome →
        site.span.Apart h.span) :
      Encounters l c t (source :: above) (.unresolved source reference)
  | image {t : Text} {source : DocumentId} {above : List DocumentId}
      {h : Hit (Embed × Text)} {reference : Reference}
      (hhit : h ∈ t.scan recogniseImage) (hopen : ¬isFenced t.fences h.span.start)
      (hparse : imageReference? h.value.2 = some reference)
      (hmeans : (l.seenThrough c).resolver.meaning reference source = none)
      (hfree : ∀ site ∈ (l.seenThrough c).sitesIn t source, site.construct.isSome →
        site.span.Apart h.span) :
      Encounters l c t (source :: above) (.unresolved source reference)
  | note {t : Text} {source target : DocumentId} {above : List DocumentId} {site : LoweringSite}
      {part : Part} {fault : Fault} (hsite : site ∈ (l.seenThrough c).sitesIn t source)
      (hasks : site.asks = some (target, part))
      (hfault : (l.resolver.collection.seenThrough c).partFault? (source :: above) target part =
        some fault) :
      Encounters l c t (source :: above) fault
  | down {t content : Text} {source target : DocumentId} {above : List DocumentId}
      {site : LoweringSite} {fault : Fault} (hsite : site ∈ (l.seenThrough c).sitesIn t source)
      (hgranted : l.lowerer.answer (source :: above) site (l.resolver.collection.seenThrough c) =
        .ok (target, content))
      (rest : Encounters l c content (target :: source :: above) fault) :
      Encounters l c t (source :: above) fault

end Lowering

namespace Prepared

variable {g : Collection} {c : Cache} {t : Text} {source : DocumentId} {p : Profile}
  {format : ExportFormat}

/-- Lowering adds no warning but that about the number of passes. -/
theorem mem_warnings_iff {w : Warning} (hw : ∀ passes, w ≠ .notConverged passes) :
    w ∈ (Prepared.of g c t source p format).1.warnings ↔
      w ∈ ((Resolver.within g none).expand c t source).1.warnings := by
  unfold Prepared.of
  simp only [List.mem_append]
  refine or_iff_left fun h => ?_
  split at h
  · cases h
  · exact hw _ (List.mem_singleton.mp h)

end Prepared

/-- **What is reported of a note that is prepared.** Every fault that the expansion encounters is.
One that a pass of the lowering encounters is, just when the expansion encounters one that is
reported alike. -/
theorem faults_reported_iff (g : Collection) (c : Cache) (t : Text) (source : DocumentId)
    (p : Profile) (format : ExportFormat)
    (hexpands : ((Resolver.within g none).expander.weave? t source [source] c).isSome) :
    (∀ fault, ((Resolver.within g none).seenThrough c).Encounters t [source] fault →
      fault.warning ∈ (Prepared.of g c t source p format).1.warnings) ∧
    ∀ n < ((Prepared.lowering g p format).lower c (Prepared.expanded g c t source) source).1.passes,
      ∀ fault, (Prepared.lowering g p format).Encounters c
        ((Prepared.lowering g p format).afterPasses c source (Prepared.expanded g c t source) n)
          [source] fault →
        ((∃ w ∈ (Prepared.of g c t source p format).1.warnings, fault.Matches w) ↔
          ∃ like, ((Resolver.within g none).seenThrough c).Encounters t [source] like ∧
            fault.Matches like.warning) := by
  have hreported : ∀ fault, ((Resolver.within g none).seenThrough c).Encounters t [source] fault →
      fault.warning ∈ (Prepared.of g c t source p format).1.warnings := fun fault hfault =>
    (Prepared.mem_warnings_iff fault.matches_warning.kind.2).mpr
      (Resolver.warning_mem hfault source [] rfl hexpands)
  refine ⟨hreported, fun n _ fault _ => ⟨?_, ?_⟩⟩
  · rintro ⟨w, hw, hmatches⟩
    obtain ⟨hkind, hpasses⟩ := hmatches.kind
    obtain ⟨like, hlike, rfl⟩ := Resolver.exists_of_warning_mem hexpands
      ((Prepared.mem_warnings_iff hpasses).mp hw) hkind
    exact ⟨like, hlike, hmatches⟩
  · rintro ⟨like, hlike, hmatches⟩
    exact ⟨like.warning, hreported like hlike, hmatches⟩

/-! ### A fault that is not reported -/

/-- A collection without documents. -/
def emptyVault : MemoryVault := ⟨[], []⟩

theorem emptyVault_expands (t : Text) (source : DocumentId) :
    ((Resolver.within emptyVault.toCollection none).expander.weave? t source [source]
      .empty).isSome :=
  Weaver.weave?_isSome (Resolver.finds_expander _)
    (Collection.finite_readable_seenThrough emptyVault.finite_readable _) _ _ _ rfl

/-- The reference of an image of a note that is not there. -/
def goneReference : Reference := ⟨"gone.md".toList, none, none, none, none⟩

/-- The image of that note. -/
def goneImage : Hit (Embed × Text) := ⟨⟨0, 13⟩, ⟨[], ['x']⟩, "gone.md".toList⟩

/-- The first pass finds that the image means no document. -/
theorem emptyVault_encounters :
    (Prepared.lowering emptyVault.toCollection {} .pdf).Encounters .empty "![x](gone.md)".toList
      [mainNote] (.unresolved mainNote goneReference) := by
  refine .image (h := goneImage) (by decide +kernel) (by decide +kernel) (by decide +kernel) ?_ ?_
  · rw [Lowering.seenThrough_empty]
    decide +kernel
  · rw [Lowering.seenThrough_empty, show (Prepared.lowering emptyVault.toCollection {} .pdf).sitesIn
      "![x](gone.md)".toList mainNote = [] by decide +kernel]
    simp

/-- **An image of a note that is not there is dropped silently**: the first pass meets it and leaves
it as it is, and no warning is about it. -/
theorem note_image_unreported :
    0 < ((Prepared.lowering emptyVault.toCollection {} .pdf).lower .empty
        (Prepared.expanded emptyVault.toCollection .empty "![x](gone.md)".toList mainNote)
          mainNote).1.passes ∧
      (Prepared.lowering emptyVault.toCollection {} .pdf).Encounters .empty
        ((Prepared.lowering emptyVault.toCollection {} .pdf).afterPasses .empty mainNote
          (Prepared.expanded emptyVault.toCollection .empty "![x](gone.md)".toList mainNote) 0)
        [mainNote] (.unresolved mainNote goneReference) ∧
      ∀ w ∈ (Prepared.of emptyVault.toCollection .empty "![x](gone.md)".toList mainNote {}
        .pdf).1.warnings, ¬(Fault.unresolved mainNote goneReference).Matches w := by
  have hembeds : Text.openEmbeds "![x](gone.md)".toList = [] := by decide +kernel
  have hexpanded : Prepared.expanded emptyVault.toCollection .empty "![x](gone.md)".toList
      mainNote = "![x](gone.md)".toList :=
    (Resolver.expandVisited_of_no_embeds hembeds _ _ _).2
  refine ⟨Lowering.lower_passes_pos _ _ _ _, ?_, fun w hw hmatches => ?_⟩
  · rw [hexpanded]
    exact emptyVault_encounters
  · obtain ⟨hkind, hpasses⟩ := hmatches.kind
    obtain ⟨fault, hfault, -⟩ := Resolver.exists_of_warning_mem (emptyVault_expands _ _)
      ((Prepared.mem_warnings_iff hpasses).mp hw) hkind
    cases hfault with
    | here hembed _ | down hembed _ _ _ _ =>
      rw [hembeds] at hembed
      cases hembed

/-- An embed of a note that is not there, and an image of it. -/
theorem faults_reported_iff_embed :
    let g := emptyVault.toCollection
    let t := "![[gone]] ![x](gone.md)".toList
    let l := Prepared.lowering g {} .pdf
    (∀ fault, ((Resolver.within g none).seenThrough .empty).Encounters t [mainNote] fault →
      fault.warning ∈ (Prepared.of g .empty t mainNote {} .pdf).1.warnings) ∧
    ∀ n < (l.lower .empty (Prepared.expanded g .empty t mainNote) mainNote).1.passes,
      ∀ fault, l.Encounters .empty
        (l.afterPasses .empty mainNote (Prepared.expanded g .empty t mainNote) n)
          [mainNote] fault →
        ((∃ w ∈ (Prepared.of g .empty t mainNote {} .pdf).1.warnings, fault.Matches w) ↔
          ∃ like, ((Resolver.within g none).seenThrough .empty).Encounters t [mainNote] like ∧
            fault.Matches like.warning) :=
  faults_reported_iff emptyVault.toCollection .empty _ mainNote {} .pdf (emptyVault_expands _ _)

end NotePress
