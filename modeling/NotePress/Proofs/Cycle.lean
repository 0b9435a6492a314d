import Mathlib.Data.List.Nodup
import NotePress.Proofs.Scanning
import NotePress.Proofs.Termination

/-!
# Cycle warnings

A way leads down from the text of a document through embeds, each time into the part of a note that
the embed names; `Resolver.Way` is that relation, and says nothing about documents that come twice.
An expansion follows the ways whose documents are distinct. Where an embed at the end of such a way
means a document on it, the way closes (`Resolver.Closes`).

`cycle_warnings` says that an expansion warns of a cycle once for every place where a way closes and
nowhere else, and puts nothing there but the quote prefix of the embed; so it does not warn at all
just when no way comes back to a document on it.

The documents on a way are listed from the innermost to the first.
-/

namespace NotePress

/-- An embed that an expansion comes to. -/
structure Occurrence where
  /-- The embeds on the way to it. -/
  path : List (Hit Embed)
  embed : Hit Embed
  /-- The document that it stands in. -/
  source : DocumentId
  /-- The document that it means. -/
  target : DocumentId

/-- The same place, seen from a text that brings in the text seen so far at an embed. -/
def Occurrence.below (e : Hit Embed) (o : Occurrence) : Occurrence := { o with path := e :: o.path }

theorem Occurrence.below_injective (e : Hit Embed) : Function.Injective (Occurrence.below e) := by
  rintro ⟨⟩ ⟨⟩ h
  simpa [below] using h

/-- The warning about a place where a way closes. -/
def Occurrence.warning (o : Occurrence) : Warning := .cycle o.source o.target

/-- Whether a warning is about a cycle. -/
def Warning.isCycle : Warning → Bool
  | .cycle _ _ => true
  | _ => false

/-- A list has just the things that satisfy a predicate, each once. -/
def Enumerates {α : Type} (as : List α) (P : α → Prop) : Prop := as.Nodup ∧ ∀ a, a ∈ as ↔ P a

/-- Lists one after another have what one of them has, if nothing belongs to two. -/
theorem exists_enumerates_flatMap {α β γ : Type} {es : List α} (hes : es.Nodup) {f : α → List γ}
    {g : β → γ} {P : α → β → Prop} (hunique : ∀ e e' o, P e o → P e' o → e = e')
    (h : ∀ e ∈ es, ∃ os, Enumerates os (P e) ∧ f e = os.map g) :
    ∃ os, Enumerates os (fun o => ∃ e ∈ es, P e o) ∧ es.flatMap f = os.map g := by
  induction es with
  | nil => exact ⟨[], ⟨.nil, by simp⟩, rfl⟩
  | cons e rest ih =>
    obtain ⟨hnew, hrest⟩ := List.nodup_cons.mp hes
    obtain ⟨os, ⟨hos, hmem⟩, hf⟩ := h e (List.mem_cons_self ..)
    obtain ⟨later, ⟨hlater, hmem'⟩, hf'⟩ :=
      ih hrest fun e' he' => h e' (List.mem_cons_of_mem _ he')
    refine ⟨os ++ later, ⟨?_, fun o => ?_⟩, ?_⟩
    · refine List.nodup_append'.mpr ⟨hos, hlater, fun o ho ho' => ?_⟩
      obtain ⟨e', he', hP'⟩ := (hmem' o).mp ho'
      exact hnew (hunique e e' o ((hmem o).mp ho) hP' ▸ he')
    · rw [List.mem_append, hmem, hmem']
      simp
    · rw [List.flatMap_cons, hf, hf', List.map_append]

/-- No embed of a text comes twice. -/
theorem Text.openEmbeds_nodup (t : Text) : t.openEmbeds.Nodup :=
  (t.scan_nodup recogniseEmbed).filter _

namespace Resolver

variable {r : Resolver}

/-- The part of a note that an embed in `source` means. -/
def noteMeant (r : Resolver) (source : DocumentId) (e : Hit Embed) : Option (DocumentId × Part) :=
  (r.siteOf source e).asks

/-- A part of a note that can be read. -/
def Reads (r : Resolver) (target : DocumentId) (part : Part) (content : Text) : Prop :=
  ∃ raw, r.collection.read target = .ok raw ∧ raw.withoutFrontMatter.part? part = some content

theorem Reads.unique {r : Resolver} {target : DocumentId} {part : Part} {t₁ t₂ : Text}
    (h₁ : r.Reads target part t₁) (h₂ : r.Reads target part t₂) : t₁ = t₂ := by
  obtain ⟨raw₁, hread₁, hpart₁⟩ := h₁
  obtain ⟨raw₂, hread₂, hpart₂⟩ := h₂
  rw [hread₁] at hread₂
  cases hread₂
  rw [hpart₁] at hpart₂
  exact Option.some.inj hpart₂

/-- A way down: from a text and the documents on the way to it, through embeds outside the fences,
to a text and the documents on the way to that. -/
inductive Way (r : Resolver) :
    Text → List DocumentId → List (Hit Embed) → Text → List DocumentId → Prop where
  | here {t : Text} {chain : List DocumentId} : Way r t chain [] t chain
  | down {t content t' : Text} {source target : DocumentId} {above chain' : List DocumentId}
      {e : Hit Embed} {part : Part} {path : List (Hit Embed)}
      (hembed : e ∈ t.openEmbeds) (hmeans : r.noteMeant source e = some (target, part))
      (hreads : r.Reads target part content)
      (rest : Way r content (target :: source :: above) path t' chain') :
      Way r t (source :: above) (e :: path) t' chain'

/-- A place where a way with distinct documents closes: an embed at its end means a document on
it. -/
def Closes (r : Resolver) (t : Text) (chain : List DocumentId) (o : Occurrence) : Prop :=
  ∃ t' above part, r.Way t chain o.path t' (o.source :: above) ∧ (o.source :: above).Nodup ∧
    o.embed ∈ t'.openEmbeds ∧ r.noteMeant o.source o.embed = some (o.target, part) ∧
      o.target ∈ o.source :: above

/-! ### Ways -/

/-- The documents on a way stay on it. -/
theorem Way.suffix {t t' : Text} {chain chain' : List DocumentId} {path : List (Hit Embed)}
    (h : r.Way t chain path t' chain') : chain <:+ chain' := by
  induction h with
  | here => exact List.suffix_rfl
  | down _ _ _ _ ih => exact (List.suffix_cons _ _).trans ih

/-- The places where ways through one embed close: there, or below it. -/
def ClosesAt (r : Resolver) (source : DocumentId) (above : List DocumentId) (e : Hit Embed)
    (o : Occurrence) : Prop :=
  ∃ target part, r.noteMeant source e = some (target, part) ∧
    (target ∈ source :: above ∧ o = ⟨[], e, source, target⟩ ∨
      target ∉ source :: above ∧ ∃ content, r.Reads target part content ∧
        ∃ o', r.Closes content (target :: source :: above) o' ∧ o = o'.below e)

theorem closes_iff {t : Text} {source : DocumentId} {above : List DocumentId}
    (hnodup : (source :: above).Nodup) {o : Occurrence} :
    r.Closes t (source :: above) o ↔ ∃ e ∈ t.openEmbeds, r.ClosesAt source above e o := by
  constructor
  · rintro ⟨t', above', part, hway, hdistinct, hembed, hmeans, hback⟩
    obtain ⟨path, embed, source', target⟩ := o
    cases hway with
    | here => exact ⟨embed, hembed, target, part, hmeans, .inl ⟨hback, rfl⟩⟩
    | @down _ content _ _ next _ _ e part' path he hnext hreads rest =>
      refine ⟨e, he, next, part', hnext, .inr ⟨?_, content, hreads, ?_⟩⟩
      · exact (List.nodup_cons.mp (rest.suffix.sublist.nodup hdistinct)).1
      · exact ⟨⟨path, embed, source', target⟩,
          ⟨t', above', part, rest, hdistinct, hembed, hmeans, hback⟩, rfl⟩
  · rintro ⟨e, he, target, part, hmeans, ⟨hback, rfl⟩ | ⟨-, content, hreads, o', hcloses, rfl⟩⟩
    · exact ⟨t, above, part, .here, hnodup, he, hmeans, hback⟩
    · obtain ⟨t', above', part', hway, hrest⟩ := hcloses
      exact ⟨t', above', part', .down he hmeans hreads hway, hrest⟩

/-- A place tells the first embed on the way to it. -/
theorem ClosesAt.unique {source : DocumentId} {above : List DocumentId} {e e' : Hit Embed}
    {o : Occurrence} (h : r.ClosesAt source above e o) (h' : r.ClosesAt source above e' o) :
    e = e' := by
  obtain ⟨_, _, -, ⟨-, rfl⟩ | ⟨-, _, -, o₁, -, rfl⟩⟩ := h
  · obtain ⟨_, _, -, ⟨-, h'⟩ | ⟨-, _, -, o₂, -, h'⟩⟩ := h'
    · exact congrArg Occurrence.embed h'
    · exact absurd (congrArg Occurrence.path h') (by simp [Occurrence.below])
  · obtain ⟨_, _, -, ⟨-, h'⟩ | ⟨-, _, -, o₂, -, h'⟩⟩ := h'
    · exact absurd (congrArg Occurrence.path h') (by simp [Occurrence.below])
    · exact (List.cons.inj (congrArg Occurrence.path h')).1

end Resolver

/-! ### What an embed becomes -/

namespace ExpansionSite

variable {site : ExpansionSite} {target : DocumentId} {part : Part} {source : DocumentId}

/-- A site asks for the note that its reference means. -/
theorem target_of_asks (h : site.asks = some (target, part)) :
    (∃ reference, site.reference = some reference) ∧ site.target = some target := by
  unfold asks at h
  split at h
  · rename_i reference id hreference htarget
    split at h
    · cases h
      exact ⟨⟨reference, hreference⟩, htarget⟩
    · cases h
  · cases h

/-- An embed of a note on the way down leaves its quote prefix and a warning. -/
theorem without_barred (h : site.asks = some (target, part)) :
    site.without source (some .barred) = (some site.quote.trimEnd, [.cycle source target]) := by
  obtain ⟨⟨reference, hreference⟩, htarget⟩ := target_of_asks h
  simp only [without, hreference, htarget]
  cases hquote : site.quote <;> rfl

/-- An embed that asks for nothing stays. -/
theorem without_none : (site.without source none).1 = none := by
  unfold without
  split <;> first | rfl | contradiction

/-- Nothing else warns of a cycle. -/
theorem filter_isCycle_without {why : Option Refusal} (h : why ≠ some .barred) :
    (site.without source why).2.filter Warning.isCycle = [] := by
  unfold without
  split <;> first | rfl | exact absurd rfl h

end ExpansionSite

namespace Resolver

variable {r : Resolver} {c : Cache} {source : DocumentId} {above : List DocumentId}

/-- The cycle warnings about one embed, when those about what it brings in are known. -/
theorem enumerates_filled {e : Hit Embed}
    (hinner : ∀ target part content, (r.seenThrough c).noteMeant source e = some (target, part) →
      target ∉ source :: above → (r.seenThrough c).Reads target part content →
        ∃ os, Enumerates os ((r.seenThrough c).Closes content (target :: source :: above)) ∧
          (r.expandVisited c content target (target :: source :: above)).1.warnings.filter
            Warning.isCycle = os.map Occurrence.warning) :
    ∃ os, Enumerates os ((r.seenThrough c).ClosesAt source above e) ∧
      ((r.expander.filled c source (source :: above) ((r.seenThrough c).siteOf source e)).2.filter
        Warning.isCycle) = os.map Occurrence.warning := by
  unfold Weaver.filled
  cases hanswer : r.expander.answer (source :: above) ((r.seenThrough c).siteOf source e)
      (r.expander.collection.seenThrough c) with
  | error why =>
    by_cases hwhy : why = some .barred
    · subst hwhy
      obtain ⟨target, part, hmeans, hback⟩ := Weaver.answer_eq_barred_iff.mp hanswer
      refine ⟨[⟨[], e, source, target⟩], ⟨List.nodup_singleton _, fun o => ?_⟩, ?_⟩
      · rw [List.mem_singleton]
        refine ⟨fun ho => ⟨target, part, hmeans, .inl ⟨hback, ho⟩⟩, ?_⟩
        rintro ⟨target', part', hmeans', h⟩
        cases hmeans.symm.trans hmeans'
        rcases h with ⟨-, ho⟩ | ⟨hnew, -⟩
        · exact ho
        · exact absurd hback hnew
      · show (((r.seenThrough c).siteOf source e).without source (some .barred)).2.filter _ = _
        rw [ExpansionSite.without_barred hmeans]
        rfl
    · refine ⟨[], ⟨.nil, fun o => ?_⟩, ExpansionSite.filter_isCycle_without hwhy⟩
      refine ⟨fun ho => absurd ho List.not_mem_nil, ?_⟩
      rintro ⟨target, part, hmeans, ⟨hback, -⟩ | ⟨hnew, content, ⟨raw, hread, hpart⟩, -⟩⟩
      · cases hanswer.symm.trans (Weaver.answer_eq_barred_iff.mpr ⟨target, part, hmeans, hback⟩)
        exact absurd rfl hwhy
      · cases hanswer.symm.trans
          (Weaver.answer_eq_ok_iff.mpr ⟨part, raw, hmeans, hnew, hread, hpart⟩)
  | ok found =>
    obtain ⟨target, content⟩ := found
    obtain ⟨part, raw, hmeans, hnew, hread, hpart⟩ := Weaver.answer_eq_ok_iff.mp hanswer
    obtain ⟨os, ⟨hos, hmem⟩, hwarnings⟩ :=
      hinner target part content hmeans hnew ⟨raw, hread, hpart⟩
    refine ⟨os.map (Occurrence.below e), ⟨hos.map (Occurrence.below_injective e), fun o => ?_⟩, ?_⟩
    · rw [List.mem_map]
      constructor
      · rintro ⟨o', ho', rfl⟩
        exact ⟨target, part, hmeans,
          .inr ⟨hnew, content, ⟨raw, hread, hpart⟩, o', (hmem o').mp ho', rfl⟩⟩
      · rintro ⟨target', part', hmeans', h⟩
        cases hmeans.symm.trans hmeans'
        rcases h with ⟨hback, -⟩ | ⟨-, content', ⟨raw', hread', hpart'⟩, o', ho', rfl⟩
        · exact absurd hback hnew
        · cases hread.symm.trans hread'
          cases hpart.symm.trans hpart'
          exact ⟨o', (hmem o').mpr ho', rfl⟩
    · rw [List.map_map]
      exact hwarnings

/-- **The cycle warnings of an expansion** are those about the places where ways close. -/
theorem enumerates_expandVisited {t : Text} (hnodup : (source :: above).Nodup)
    (h : (r.expander.weave? t source (source :: above) c).isSome) :
    ∃ os, Enumerates os ((r.seenThrough c).Closes t (source :: above)) ∧
      (r.expandVisited c t source (source :: above)).1.warnings.filter Warning.isCycle =
        os.map Occurrence.warning := by
  refine Weaver.weave_induct r.finds_expander (P := fun t source visited =>
    ∀ above, visited = source :: above → visited.Nodup →
      ∃ os, Enumerates os ((r.seenThrough c).Closes t visited) ∧
        (r.expandVisited c t source visited).1.warnings.filter Warning.isCycle =
          os.map Occurrence.warning) ?_ h above rfl hnodup
  rintro t source _ hends ih above rfl hnodup
  obtain ⟨hrun, -⟩ := Weaver.weave_eq r.finds_expander hends
  obtain ⟨os, ⟨hos, hmem⟩, hwarnings⟩ := exists_enumerates_flatMap
    (f := fun e => (r.expander.filled c source (source :: above)
      ((r.seenThrough c).siteOf source e)).2.filter Warning.isCycle)
    (P := (r.seenThrough c).ClosesAt source above) (g := Occurrence.warning)
    t.openEmbeds_nodup (fun e e' o => ClosesAt.unique) fun e he => @enumerates_filled
      r c source above e
      fun target part content hmeans hnew ⟨raw, hread, hpart⟩ =>
        ih _ (List.mem_map_of_mem he) target content
          (Weaver.answer_eq_ok_iff.mpr ⟨part, raw, hmeans, hnew, hread, hpart⟩) _ rfl
          (List.nodup_cons.mpr ⟨hnew, hnodup⟩)
  refine ⟨os, ⟨hos, fun o => (hmem o).trans (closes_iff hnodup).symm⟩, ?_⟩
  rw [← hwarnings, expandVisited, hrun]
  show (((r.seenThrough c).sitesIn t source).flatMap _).filter _ = _
  rw [sitesIn, List.flatMap_map, List.filter_flatMap]

/-! ### What stands at embeds -/

/-- A run that an expansion comes to ends, if the expansion ends. -/
theorem Way.ends {t t' : Text} {chain chain' : List DocumentId} {path : List (Hit Embed)}
    (h : (r.seenThrough c).Way t chain path t' chain') (hnodup : chain'.Nodup)
    (hends : ∀ source above, chain = source :: above →
      (r.expander.weave? t source chain c).isSome) :
    ∀ source above, chain' = source :: above →
      (r.expander.weave? t' source chain' c).isSome := by
  induction h with
  | here => exact hends
  | @down t content t' source target above chain' e part path hembed hmeans hreads rest ih =>
    refine ih hnodup fun _ _ hchain => ?_
    cases hchain
    obtain ⟨raw, hread, hpart⟩ := hreads
    have hnew := (List.nodup_cons.mp (rest.suffix.sublist.nodup hnodup)).1
    exact (Weaver.weave_eq r.finds_expander (hends source above rfl)).2 _
      (List.mem_map_of_mem hembed) target content
      (Weaver.answer_eq_ok_iff.mpr ⟨part, raw, hmeans, hnew, hread, hpart⟩)

/-- `new` says what stands at the embeds of a text that is expanded: nothing but the quote prefix
where the way closes, and where a part of a note comes in, that part as it is expanded by itself. -/
def Inserts (r : Resolver) (c : Cache) (t : Text) (source : DocumentId) (above : List DocumentId)
    (new : Hit Embed → Option Text) : Prop :=
  ∀ e ∈ t.openEmbeds, ∀ target part,
    (r.seenThrough c).noteMeant source e = some (target, part) →
      (target ∈ source :: above → new e = some e.value.quote.trimEnd) ∧
      ∀ content, target ∉ source :: above → (r.seenThrough c).Reads target part content →
        new e = some (quoteInserted e.value.quote
          (r.expandVisited c content target (target :: source :: above)).1.text)

/-- What stands at an embed when the text that it stands in is expanded, unless it stays. -/
def inserted (r : Resolver) (c : Cache) (source : DocumentId) (above : List DocumentId)
    (e : Hit Embed) : Option Text :=
  (r.expander.filled c source (source :: above) ((r.seenThrough c).siteOf source e)).1

/-- What an expansion puts into a text. -/
def insertions (r : Resolver) (c : Cache) (t : Text) (source : DocumentId)
    (above : List DocumentId) : List (Span × Text) :=
  t.openEmbeds.filterMap fun e => (r.inserted c source above e).map (e.span, ·)

theorem expandVisited_text {t : Text}
    (h : (r.expander.weave? t source (source :: above) c).isSome) :
    (r.expandVisited c t source (source :: above)).1.text =
      t.splice (r.insertions c t source above) := by
  rw [expandVisited, (Weaver.weave_eq r.finds_expander h).1]
  show t.splice (((r.seenThrough c).sitesIn t source).filterMap _) = _
  rw [sitesIn, List.filterMap_map]
  rfl

/-- A part of a note comes in as it is expanded by itself. -/
theorem inserted_of_reads {e : Hit Embed} {target : DocumentId} {part : Part} {content : Text}
    (hmeans : (r.seenThrough c).noteMeant source e = some (target, part))
    (hnew : target ∉ source :: above) (hreads : (r.seenThrough c).Reads target part content) :
    r.inserted c source above e = some (quoteInserted e.value.quote
      (r.expandVisited c content target (target :: source :: above)).1.text) := by
  obtain ⟨raw, hread, hpart⟩ := hreads
  have hanswer := Weaver.answer_eq_ok_iff (w := r.expander)
    (g := r.collection.seenThrough c) |>.mpr ⟨part, raw, hmeans, hnew, hread, hpart⟩
  rw [inserted, Weaver.filled, show r.expander.collection = r.collection from rfl, hanswer]
  rfl

theorem inserts_inserted (r : Resolver) (c : Cache) (t : Text) (source : DocumentId)
    (above : List DocumentId) : r.Inserts c t source above (r.inserted c source above) := by
  intro e he target part hmeans
  refine ⟨fun hback => ?_, fun content hnew hreads => inserted_of_reads hmeans hnew hreads⟩
  have hanswer := Weaver.answer_eq_barred_iff (w := r.expander)
    (g := r.collection.seenThrough c) |>.mpr ⟨target, part, hmeans, hback⟩
  rw [inserted, Weaver.filled, show r.expander.collection = r.collection from rfl, hanswer]
  exact congrArg Prod.fst (ExpansionSite.without_barred hmeans)

/-- A text without embeds is expanded to itself. -/
theorem expandVisited_of_no_embeds {t : Text} (h : t.openEmbeds = []) (source : DocumentId)
    (above : List DocumentId) (c : Cache) :
    (r.expander.weave? t source (source :: above) c).isSome ∧
      (r.expandVisited c t source (source :: above)).1.text = t := by
  have hends : (r.expander.weave? t source (source :: above) c).isSome :=
    Weaver.weave?_isSome_of_granted r.finds_expander rfl (by simp [sitesIn, h])
  refine ⟨hends, ?_⟩
  rw [expandVisited_text hends, insertions, h]
  exact t.splice_nil

/-- A text with one embed, of a part of a note that has none. -/
theorem expand_of_one_embed {t content : Text} {source target : DocumentId} {e : Hit Embed}
    {part : Part} (ht : t.openEmbeds = [e])
    (hmeans : (r.seenThrough c).noteMeant source e = some (target, part)) (hnew : target ≠ source)
    (hreads : (r.seenThrough c).Reads target part content) (hcontent : content.openEmbeds = []) :
    (r.expand c t source).1.text = t.splice [(e.span, quoteInserted e.value.quote content)] := by
  have hends : (r.expander.weave? t source [source] c).isSome := by
    refine Weaver.weave?_isSome_of_granted r.finds_expander rfl
      fun site hsite id found hok c' _ => ?_
    obtain ⟨other, hother, rfl⟩ := List.mem_map.mp hsite
    rw [ht, List.mem_singleton] at hother
    subst hother
    obtain ⟨part', raw', hasks, -, hread', hpart'⟩ := Weaver.answer_eq_ok_iff.mp hok
    obtain ⟨rfl, rfl⟩ := Prod.mk.inj (Option.some.inj (hasks.symm.trans hmeans))
    rw [Reads.unique ⟨raw', hread', hpart'⟩ hreads]
    exact (expandVisited_of_no_embeds hcontent id [source] c').1
  have hinserted : r.inserted c source [] e = some (quoteInserted e.value.quote content) := by
    rw [inserted_of_reads hmeans (by simpa using hnew) hreads,
      (expandVisited_of_no_embeds hcontent target [source] c).2]
  unfold expand
  rw [expandVisited_text hends, insertions, ht, List.filterMap_cons_some (by rw [hinserted]; rfl)]
  rfl

/-! ### Ways that come back -/

/-- No way, of distinct documents or not, comes to an embed that means a document on it. -/
def NoReturn (r : Resolver) (t : Text) (chain : List DocumentId) : Prop :=
  ∀ path t' source above, r.Way t chain path t' (source :: above) →
    ∀ e ∈ t'.openEmbeds, ∀ target part, r.noteMeant source e = some (target, part) →
      target ∉ source :: above

/-- Where nothing closes, every way has distinct documents, and nothing closes behind it. -/
theorem Way.not_closes {t t' : Text} {chain chain' : List DocumentId} {path : List (Hit Embed)}
    (h : r.Way t chain path t' chain') (hnodup : chain.Nodup) (hopen : ∀ o, ¬r.Closes t chain o) :
    chain'.Nodup ∧ ∀ o, ¬r.Closes t' chain' o := by
  induction h with
  | here => exact ⟨hnodup, hopen⟩
  | @down t content t' source target above chain' e part path hembed hmeans hreads rest ih =>
    have hnew : target ∉ source :: above := fun hback =>
      hopen ⟨[], e, source, target⟩ ⟨t, above, part, .here, hnodup, hembed, hmeans, hback⟩
    refine ih (List.nodup_cons.mpr ⟨hnew, hnodup⟩) fun o ho => hopen (o.below e) ?_
    exact (closes_iff hnodup).mpr
      ⟨e, hembed, target, part, hmeans, .inr ⟨hnew, content, hreads, o, ho, rfl⟩⟩

theorem noReturn_iff {t : Text} :
    r.NoReturn t [source] ↔ ∀ o, ¬r.Closes t [source] o := by
  constructor
  · rintro h o ⟨t', above, part, hway, -, hembed, hmeans, hback⟩
    exact h _ _ _ _ hway _ hembed _ _ hmeans hback
  · intro hopen path t' source' above hway e hembed target part hmeans hback
    obtain ⟨hnodup, hopen'⟩ := hway.not_closes (List.nodup_singleton _) hopen
    exact hopen' ⟨[], e, source', target⟩ ⟨t', above, part, .here, hnodup, hembed, hmeans, hback⟩

end Resolver

/-- **Cycle warnings are exact.** An expansion that ends warns of a cycle once for every place where
a way with distinct documents closes, and nowhere else; nothing but the quote prefix stands there;
and there is no such warning just when no way comes back to a document on it. -/
theorem cycle_warnings (r : Resolver) (c : Cache) (t : Text) (source : DocumentId)
    (h : (r.expander.weave? t source [source] c).isSome) :
    (∃ os, Enumerates os ((r.seenThrough c).Closes t [source]) ∧
      (r.expand c t source).1.warnings.filter Warning.isCycle = os.map Occurrence.warning) ∧
    (∀ path t' source' above, (r.seenThrough c).Way t [source] path t' (source' :: above) →
      (source' :: above).Nodup →
        ∃ new, (r.expandVisited c t' source' (source' :: above)).1.text =
            t'.splice (t'.openEmbeds.filterMap fun e => (new e).map (e.span, ·)) ∧
          r.Inserts c t' source' above new) ∧
    ((∀ warning ∈ (r.expand c t source).1.warnings, ¬warning.isCycle) ↔
      (r.seenThrough c).NoReturn t [source]) := by
  obtain ⟨os, hos, hwarnings⟩ := Resolver.enumerates_expandVisited (List.nodup_singleton source) h
  refine ⟨⟨os, hos, hwarnings⟩, fun path t' source' above hway hnodup => ?_, ?_⟩
  · refine ⟨_, Resolver.expandVisited_text (hway.ends hnodup ?_ source' above rfl),
      r.inserts_inserted c t' source' above⟩
    rintro _ _ ⟨⟩
    exact h
  · rw [Resolver.noReturn_iff, ← List.filter_eq_nil_iff]
    show (r.expandVisited c t source [source]).1.warnings.filter Warning.isCycle = [] ↔ _
    rw [hwarnings, List.map_eq_nil_iff, List.eq_nil_iff_forall_not_mem]
    exact forall_congr' fun o => not_congr (hos.2 o)

/-- A note that quotes another one, which comes back to it and to itself. -/
theorem mutual_cycle_warnings :
    let r := Resolver.within mutualVault.toCollection none
    let source := DocumentId.ofPath "a.md".toList
    let t := "> ![[b]]".toList
    (∃ os, Enumerates os ((r.seenThrough .empty).Closes t [source]) ∧
      (r.expand .empty t source).1.warnings.filter Warning.isCycle = os.map Occurrence.warning) ∧
    (∀ path t' source' above, (r.seenThrough .empty).Way t [source] path t' (source' :: above) →
      (source' :: above).Nodup →
        ∃ new, (r.expandVisited .empty t' source' (source' :: above)).1.text =
            t'.splice (t'.openEmbeds.filterMap fun e => (new e).map (e.span, ·)) ∧
          r.Inserts .empty t' source' above new) ∧
    ((∀ warning ∈ (r.expand .empty t source).1.warnings, ¬warning.isCycle) ↔
      (r.seenThrough .empty).NoReturn t [source]) :=
  cycle_warnings (Resolver.within mutualVault.toCollection none) .empty _ _
    (Weaver.weave?_isSome (Resolver.finds_expander _)
      (Collection.finite_readable_seenThrough mutualVault.finite_readable _) _ _ _ rfl)

/-- Both embeds of the quoted note close a way, and leave the blank between them. -/
example :
    ((Resolver.within mutualVault.toCollection none).expand .empty "> ![[b]]".toList
      (.ofPath "a.md".toList)).1 =
      ⟨">  ".toList, [.cycle (.ofPath "b.md".toList) (.ofPath "a.md".toList),
        .cycle (.ofPath "b.md".toList) (.ofPath "b.md".toList)]⟩ := by
  cbv

end NotePress
