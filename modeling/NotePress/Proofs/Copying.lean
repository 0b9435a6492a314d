import NotePress.Proofs.Cycle

/-!
# Embeds that an expansion leaves as they are

What an expansion does not replace is copied from the note it stands in to where the note comes in,
and on, up to the text that is expanded. `Resolver.Copies` follows an embed on its way up and says
where it stands in the end: splices move it, and quote prefixes in front of the lines around it do.
`Resolver.Copies.hasAt` says that it does stand there.
-/

namespace NotePress

/-! ### Quoting -/

/-- A text with a quote prefix behind every line break. -/
def quoteBreaks (quote t : Text) : Text :=
  t.flatMap fun c => if c = '\n' then '\n' :: quote else [c]

theorem quoteBreaks_of_no_break {quote t : Text} (h : '\n' ∉ t) : quoteBreaks quote t = t := by
  induction t with
  | nil => rfl
  | cons c cs ih =>
    rw [List.mem_cons, not_or] at h
    unfold quoteBreaks at *
    rw [List.flatMap_cons, ih h.2, if_neg (Ne.symm h.1)]
    rfl

theorem quoteBreaks_append (quote a b : Text) :
    quoteBreaks quote (a ++ b) = quoteBreaks quote a ++ quoteBreaks quote b :=
  List.flatMap_append

theorem quoteBreaks_break (quote t : Text) :
    quoteBreaks quote ('\n' :: t) = '\n' :: (quote ++ quoteBreaks quote t) := rfl

theorem length_quoteBreaks (quote t : Text) :
    (quoteBreaks quote t).length = t.length + quote.length * t.count '\n' := by
  induction t with
  | nil => rfl
  | cons c cs ih =>
    unfold quoteBreaks at *
    rw [List.flatMap_cons, List.length_append, ih, List.length_cons, List.count_cons]
    by_cases hc : c = '\n'
    · simp only [hc, if_true, List.length_cons, beq_self_eq_true, Nat.mul_add, Nat.mul_one]
      omega
    · simp only [hc, if_false, List.length_cons, List.length_nil, beq_iff_eq, Nat.add_zero]
      omega

/-- Quoted lines are the prefix and the text with the prefix behind every line break. -/
theorem unlines_map_quote (quote t : Text) :
    Text.unlines (t.breakLines.map (quote ++ ·)) = quote ++ quoteBreaks quote t := by
  induction hn : t.length using Nat.strong_induction_on generalizing t with
  | _ n ih =>
    unfold Text.breakLines
    by_cases hbreak : '\n' ∈ t
    · obtain ⟨line, rest, rfl, hline⟩ := List.eq_append_cons_of_mem hbreak
      have hrest := ih rest.length (by rw [← hn, List.length_append, List.length_cons]; omega) rest
        rfl
      unfold Text.breakLines Text.unlines Text.join at hrest
      rw [List.splitOn_append_cons_self_of_not_mem hline]
      unfold Text.unlines Text.join
      rw [List.map_cons, List.intercalate_cons_of_ne_nil
        (by simp), hrest]
      rw [quoteBreaks_append, quoteBreaks_break, quoteBreaks_of_no_break hline]
      simp
    · rw [List.splitOn_eq_singleton hbreak, quoteBreaks_of_no_break hbreak]
      simp [Text.unlines, Text.join]

@[simp] theorem quoteInserted_nil_left (t : Text) : quoteInserted [] t = t := rfl

/-- The lines of a text that is not empty are quoted one by one. -/
theorem quoteInserted_eq_unlines {t : Text} (ht : t ≠ []) (quote : Text) :
    quoteInserted quote t = Text.unlines (t.breakLines.map (quote ++ ·)) := by
  cases quote with
  | nil =>
    have hsame : t.breakLines.map ([] ++ ·) = t.breakLines := List.map_id' _
    rw [quoteInserted_nil_left, hsame]
    exact (List.intercalate_splitOn '\n').symm
  | cons c quote =>
    obtain ⟨d, t, rfl⟩ := List.exists_cons_of_ne_nil ht
    rfl

theorem quoteInserted_eq_append {t : Text} (ht : t ≠ []) (quote : Text) :
    quoteInserted quote t = quote ++ quoteBreaks quote t := by
  rw [quoteInserted_eq_unlines ht, unlines_map_quote]

/-- Where the position `p` of a text comes to stand when the text is quoted. -/
def quotedAt (quote t : Text) (p : Nat) : Nat :=
  if quote = [] then p else p + quote.length * ((t.take p).count '\n' + 1)

theorem quotedAt_eq (quote t : Text) (p : Nat) :
    quotedAt quote t p = p + quote.length * ((t.take p).count '\n' + 1) := by
  unfold quotedAt
  split
  · rename_i hquote
    simp [hquote]
  · rfl

/-- A piece on one line stands in a quoted text. -/
theorem hasAt_quoteInserted {quote t piece : Text} {p : Nat} (h : t.HasAt p piece)
    (hpiece : piece ≠ []) (hline : '\n' ∉ piece) :
    (quoteInserted quote t).HasAt (quotedAt quote t p) piece := by
  have hlength := h.length_le hpiece
  have ht : t ≠ [] := by
    rintro rfl
    have := List.length_pos_iff.mpr hpiece
    simp only [List.length_nil] at hlength
    omega
  obtain ⟨front, back, rfl, rfl⟩ := Text.hasAt_iff_append.mp ⟨h, by omega⟩
  rw [quoteInserted_eq_append ht]
  refine (Text.hasAt_iff_append.mpr ⟨quote ++ quoteBreaks quote front, quoteBreaks quote back,
    ?_, ?_⟩).1
  · rw [quoteBreaks_append, quoteBreaks_append, quoteBreaks_of_no_break hline]
    simp only [List.append_assoc]
  · rw [quotedAt_eq, List.length_append, length_quoteBreaks, List.append_assoc, List.take_left,
      Nat.mul_add, Nat.mul_one]
    omega

/-! ### Copies -/

namespace Resolver

variable {r : Resolver} {c : Cache}

/-- An embed that an expansion leaves as it is, in the text at the end of a way: the way, the
document it stands in, and where it stands in the expanded text. -/
inductive Copies (r : Resolver) (c : Cache) :
    Text → List DocumentId → List (Hit Embed) → DocumentId → Hit Embed → Nat → Prop where
  | here {t : Text} {source : DocumentId} {above : List DocumentId} {e : Hit Embed}
      (hembed : e ∈ t.openEmbeds) (hstays : r.inserted c source above e = none) :
      Copies r c t (source :: above) [] source e
        (t.landing (r.insertions c t source above) e.span.start)
  | down {t content : Text} {source target d : DocumentId} {above : List DocumentId}
      {e e' : Hit Embed} {part : Part} {path : List (Hit Embed)} {p : Nat}
      (hembed : e ∈ t.openEmbeds)
      (hmeans : (r.seenThrough c).noteMeant source e = some (target, part))
      (hnew : target ∉ source :: above) (hreads : (r.seenThrough c).Reads target part content)
      (rest : Copies r c content (target :: source :: above) path d e' p) :
      Copies r c t (source :: above) (e :: path) d e'
        (t.landing (r.insertions c t source above) e.span.start + quotedAt e.value.quote
          (r.expandVisited c content target (target :: source :: above)).1.text p)

/-- A way leads to one text only. -/
theorem Way.unique {r : Resolver} {t t₁ t₂ : Text} {chain chain₁ chain₂ : List DocumentId}
    {path : List (Hit Embed)} (h₁ : r.Way t chain path t₁ chain₁)
    (h₂ : r.Way t chain path t₂ chain₂) : t₁ = t₂ ∧ chain₁ = chain₂ := by
  induction h₁ with
  | here =>
    cases h₂
    exact ⟨rfl, rfl⟩
  | down hembed hmeans hreads rest ih =>
    cases h₂ with
    | down hembed₂ hmeans₂ hreads₂ rest₂ =>
      rw [hmeans] at hmeans₂
      cases hmeans₂
      cases hreads.unique hreads₂
      exact ih rest₂

/-- An embed is copied to one place. -/
theorem Copies.unique {t : Text} {chain : List DocumentId} {path : List (Hit Embed)}
    {d : DocumentId} {e : Hit Embed} {p₁ p₂ : Nat} (h₁ : r.Copies c t chain path d e p₁)
    (h₂ : r.Copies c t chain path d e p₂) : p₁ = p₂ := by
  induction h₁ generalizing p₂ with
  | here => cases h₂ with | here => rfl
  | down hembed hmeans hnew hreads rest ih =>
    cases h₂ with
    | down hembed₂ hmeans₂ hnew₂ hreads₂ rest₂ =>
      rw [hmeans] at hmeans₂
      cases hmeans₂
      cases hreads.unique hreads₂
      rw [ih rest₂]

/-- What is copied is an embed at the end of a way of distinct documents that stays there. -/
theorem exists_copies_iff {t : Text} {chain : List DocumentId} {path : List (Hit Embed)}
    {d : DocumentId} {e : Hit Embed} (hnodup : chain.Nodup) :
    (∃ p, r.Copies c t chain path d e p) ↔
      ∃ t' above, (r.seenThrough c).Way t chain path t' (d :: above) ∧ (d :: above).Nodup ∧
        e ∈ t'.openEmbeds ∧ r.inserted c d above e = none := by
  constructor
  · rintro ⟨p, h⟩
    induction h with
    | here hembed hstays => exact ⟨_, _, .here, hnodup, hembed, hstays⟩
    | down hembed hmeans hnew hreads rest ih =>
      obtain ⟨t', above, hway, hrest⟩ := ih (List.nodup_cons.mpr ⟨hnew, hnodup⟩)
      exact ⟨t', above, .down hembed hmeans hreads hway, hrest⟩
  · rintro ⟨t', above, hway, hnodup', hembed, hstays⟩
    generalize hchain : d :: above = chain' at hway
    induction hway with
    | here =>
      subst hchain
      exact ⟨_, .here hembed hstays⟩
    | down hembed' hmeans hreads rest ih =>
      subst hchain
      have hnew := (List.nodup_cons.mp (rest.suffix.sublist.nodup hnodup')).1
      obtain ⟨p, hcopies⟩ := ih (List.nodup_cons.mpr ⟨hnew, hnodup⟩) hembed rfl
      exact ⟨_, .down hembed' hmeans hnew hreads hcopies⟩

/-- **An embed is left**: it means no part of a note, or one of a note that is not on the way down
and cannot be read. -/
def Leaves (r : Resolver) (source : DocumentId) (above : List DocumentId) (e : Hit Embed) : Prop :=
  ∀ target part, r.noteMeant source e = some (target, part) →
    target ∉ source :: above ∧ ∃ cause, r.collection.read target = .error cause

theorem inserted_eq_none_iff {source : DocumentId} {above : List DocumentId} {e : Hit Embed} :
    r.inserted c source above e = none ↔ (r.seenThrough c).Leaves source above e := by
  unfold inserted Leaves
  cases hmeans : (r.seenThrough c).noteMeant source e with
  | none =>
    have hasks : r.expander.asks ((r.seenThrough c).siteOf source e) = none := hmeans
    rw [Weaver.filled_of_asks_eq_none hasks]
    exact ⟨fun _ _ _ h => absurd h (by simp), fun _ => ExpansionSite.without_none⟩
  | some meant =>
    obtain ⟨target, part⟩ := meant
    have hasks : r.expander.asks ((r.seenThrough c).siteOf source e) = some (target, part) := hmeans
    have hcollection : r.expander.collection.seenThrough c = (r.seenThrough c).collection := rfl
    unfold Weaver.filled Weaver.answer
    rw [hasks, hcollection]
    simp only [Option.some.injEq, Prod.mk.injEq, Collection.readPart]
    by_cases hback : target ∈ source :: above
    · rw [if_pos hback]
      have hbarred := congrArg Prod.fst (@ExpansionSite.without_barred _ _ _ source hmeans)
      constructor
      · intro hnone
        exact absurd (hbarred.symm.trans hnone) (by simp)
      · intro h
        exact absurd hback (h target part ⟨rfl, rfl⟩).1
    · rw [if_neg hback]
      obtain ⟨⟨reference, hreference⟩, htarget⟩ := ExpansionSite.target_of_asks hmeans
      cases hread : (r.seenThrough c).collection.read target with
      | error cause =>
        refine iff_of_true ?_ ?_
        · simp [Part.ofNote, Weaver.granted, expander, ExpansionSite.without, hreference, htarget]
        · rintro _ _ ⟨rfl, rfl⟩
          exact ⟨hback, cause, hread⟩
      | ok raw =>
        refine iff_of_false ?_ fun h => ?_
        · cases hpart : raw.withoutFrontMatter.part? part <;>
            simp [Part.ofNote, hpart, Weaver.granted, expander, ExpansionSite.without, hreference,
              htarget]
        · obtain ⟨-, cause, herror⟩ := h target part ⟨rfl, rfl⟩
          rw [hread] at herror
          cases herror

theorem mem_scan_of_mem_openEmbeds {t : Text} {e : Hit Embed} (h : e ∈ t.openEmbeds) :
    e ∈ t.scan recogniseEmbed :=
  (List.mem_filter.mp h).1

/-- Embeds come in order and apart. -/
theorem openEmbeds_fits (t : Text) : t.Fits (t.openEmbeds.map (·.span)) := by
  constructor
  · rw [List.pairwise_map]
    exact ((t.scan_pairwise recogniseEmbed).imp And.right).sublist List.filter_sublist
  · intro s hs
    obtain ⟨e, he, rfl⟩ := List.mem_map.mp hs
    obtain ⟨hlt, hle, -⟩ := marked_recogniseEmbed.of_mem_scan (mem_scan_of_mem_openEmbeds he)
    exact ⟨hlt, hle⟩

theorem fits_insertions (r : Resolver) (c : Cache) (t : Text) (source : DocumentId)
    (above : List DocumentId) : t.Fits ((r.insertions c t source above).map (·.1)) :=
  Text.fits_filterMap (List.pairwise_map.mp (openEmbeds_fits t).1) fun _ he =>
    (openEmbeds_fits t).2 _ (List.mem_map_of_mem he)

/-- An embed that stays is apart from all that is put in. -/
theorem apart_of_stays {t : Text} {source : DocumentId} {above : List DocumentId} {e : Hit Embed}
    (he : e ∈ t.openEmbeds) (hstays : r.inserted c source above e = none) :
    ∀ part ∈ r.insertions c t source above, part.1.Apart e.span := by
  intro part hpart
  obtain ⟨e', he', hpart⟩ := List.mem_filterMap.mp hpart
  obtain ⟨new, hnew, rfl⟩ := Option.map_eq_some_iff.mp hpart
  have hne : e' ≠ e := by
    rintro rfl
    rw [hstays] at hnew
    cases hnew
  exact Span.apart_of_pairwise ((t.scan_pairwise recogniseEmbed).imp And.right)
    (mem_scan_of_mem_openEmbeds he') (mem_scan_of_mem_openEmbeds he) hne

/-- **An embed that an expansion leaves as it is stands in the expanded text**, as it is written in
its note. -/
theorem Copies.hasAt {t : Text} {chain : List DocumentId} {path : List (Hit Embed)} {d : DocumentId}
    {e : Hit Embed} {p : Nat} (h : r.Copies c t chain path d e p) :
    ∀ source above, chain = source :: above → (r.expander.weave? t source chain c).isSome →
      (r.expandVisited c t source chain).1.text.HasAt p e.value.text ∧
        '\n' ∉ e.value.text ∧ IsInner e.value.inner := by
  induction h with
  | @here t source above e hembed hstays =>
    rintro _ _ ⟨⟩ hends
    obtain ⟨hstands, hstop, hline, hinner⟩ :=
      hasAt_of_mem_scan_embed (mem_scan_of_mem_openEmbeds hembed)
    rw [expandVisited_text hends]
    refine ⟨hstands.splice (fits_insertions r c t source above) e.value.text_ne_nil ?_, hline,
      hinner⟩
    rw [← hstop]
    exact apart_of_stays hembed hstays
  | @down t content source target d above e e' part path p hembed hmeans hnew hreads _ ih =>
    rintro _ _ ⟨⟩ hends
    obtain ⟨raw, hread, hpart⟩ := hreads
    have hinnerEnds := (Weaver.weave_eq r.finds_expander hends).2 _
      (List.mem_map_of_mem hembed) target content
      (Weaver.answer_eq_ok_iff.mpr ⟨part, raw, hmeans, hnew, hread, hpart⟩)
    obtain ⟨hstands, hline, hinner⟩ := ih _ _ rfl hinnerEnds
    refine ⟨?_, hline, hinner⟩
    have hmem : (e.span, quoteInserted e.value.quote
        (r.expandVisited c content target (target :: source :: above)).1.text) ∈
          r.insertions c t source above :=
      List.mem_filterMap.mpr ⟨e, hembed, by
        rw [inserted_of_reads hmeans hnew ⟨raw, hread, hpart⟩]; rfl⟩
    rw [expandVisited_text hends]
    exact (Text.hasAt_splice_of_mem (fits_insertions r c t source above) hmem).inner
      (hasAt_quoteInserted hstands e'.value.text_ne_nil hline)

end Resolver

end NotePress
