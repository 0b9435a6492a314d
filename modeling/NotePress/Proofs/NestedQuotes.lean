import NotePress.Proofs.Copying
import NotePress.Proofs.Fencing
import NotePress.Proofs.Paths
import NotePress.Proofs.Trimming

/-!
# Quotes in quotes

A quoted embed puts its prefix in front of every line that it brings in; of nothing it leaves the
prefix, less its trailing blanks. Quoting twice is quoting once, with the outer prefix in front of
the inner one (`quoteInserted_quoteInserted`). The quote mark is what makes this hold of nothing
too: a prefix of blanks alone would be trimmed away before the outer one is put in front.

In an expansion a quoted embed opens its line, and still does when the text around it is brought in
somewhere and quoted (`quoteInserted_middle`). So a note that is reached through quoted embeds
stands in the expanded text as one embed with all prefixes would have brought it in
(`nested_quotes`).
-/

namespace NotePress

variable {p q t front middle back : Text}

/-! ### Prefixes -/

/-- **A quote prefix**: what an embed can have in front of it, as a part of it. -/
def IsQuotePrefix (quote : Text) : Prop := ∃ before t, quoteAt before t = quote

theorem isQuotePrefix_iff :
    IsQuotePrefix q ↔ q = [] ∨ '>' ∈ q ∧ ∀ c ∈ q, isQuoteChar c = true := by
  constructor
  · rintro ⟨before, t, rfl⟩
    unfold quoteAt
    simp only
    split
    · rename_i h
      exact .inr ⟨h.2, fun c hc => List.mem_takeWhile_imp hc⟩
    · exact .inl rfl
  · rintro (rfl | ⟨hmark, hall⟩)
    · exact ⟨none, [], rfl⟩
    · refine ⟨none, q, ?_⟩
      have hrun : q.takeWhile isQuoteChar = q := List.takeWhile_eq_self_iff.mpr hall
      simp only [quoteAt, hrun]
      exact if_pos ⟨rfl, hmark⟩

theorem IsQuotePrefix.append (hp : IsQuotePrefix p) (hq : IsQuotePrefix q) :
    IsQuotePrefix (p ++ q) := by
  rcases isQuotePrefix_iff.mp hp with rfl | ⟨hmark, hall⟩
  · exact hq
  · refine isQuotePrefix_iff.mpr (.inr ⟨List.mem_append_left _ hmark, fun c hc => ?_⟩)
    rcases List.mem_append.mp hc with hc | hc
    · exact hall c hc
    · rcases isQuotePrefix_iff.mp hq with rfl | ⟨-, hall'⟩
      · cases hc
      · exact hall' c hc

theorem IsQuotePrefix.no_break (hp : IsQuotePrefix p) : '\n' ∉ p := by
  rcases isQuotePrefix_iff.mp hp with rfl | ⟨-, hall⟩
  · exact List.not_mem_nil
  · exact fun hmem => Bool.noConfusion (hall _ hmem)

/-- A prefix that is there has a mark, so trimming leaves something of it. -/
theorem IsQuotePrefix.trimEnd_ne_nil (hp : IsQuotePrefix p) (hne : p ≠ []) : p.trimEnd ≠ [] := by
  obtain ⟨hmark, -⟩ := (isQuotePrefix_iff.mp hp).resolve_left hne
  intro hnil
  obtain ⟨tail, hsplit, hblank, -⟩ := Text.dropTail_eq_iff.mp hnil
  rw [List.nil_append] at hsplit
  exact absurd (hblank '>' (hsplit ▸ hmark)) (by decide)

theorem Text.trimEnd_append (h : p.trimEnd ≠ []) (q : Text) :
    Text.trimEnd (q ++ p) = q ++ p.trimEnd := by
  obtain ⟨tail, hsplit, hblank, hlast⟩ :=
    dropTail_eq_iff.mp (rfl : dropTail isBlank p = p.trimEnd)
  have hsplit : p = p.trimEnd ++ tail := hsplit
  refine dropTail_eq_iff.mpr ⟨tail, ?_, hblank, ?_⟩
  · rw [List.append_assoc, ← hsplit]
  · rwa [List.getLast?_append_of_ne_nil _ h]

/-! ### Quoting -/

@[simp] theorem quoteInserted_nil_right (p : Text) : quoteInserted p [] = p.trimEnd := by
  cases p <;> rfl

/-- **Every line is quoted.** -/
theorem breakLines_quoteInserted (hp : IsQuotePrefix p) (ht : t ≠ []) :
    (quoteInserted p t).breakLines = t.breakLines.map (p ++ ·) := by
  rw [quoteInserted_eq_unlines ht]
  refine List.splitOn_intercalate '\n' (fun line hline => ?_) ?_
  · obtain ⟨piece, hpiece, rfl⟩ := List.mem_map.mp hline
    have hfree := (Text.of_mem_splitOn hpiece).1
    simp [hp.no_break, hfree]
  · intro hnil
    exact List.splitOn_ne_nil '\n' t (List.map_eq_nil_iff.mp hnil)

theorem quoteInserted_ne_nil (hp : IsQuotePrefix p) (h : p ≠ [] ∨ t ≠ []) :
    quoteInserted p t ≠ [] := by
  by_cases ht : t = []
  · subst ht
    rw [quoteInserted_nil_right]
    exact hp.trimEnd_ne_nil (h.resolve_right (fun h => h rfl))
  · cases p with
    | nil => exact ht
    | cons c p =>
      rw [quoteInserted_eq_append ht]
      exact List.cons_ne_nil _ _

/-- **Quoting twice is quoting once**, with the outer prefix in front of the inner one. -/
theorem quoteInserted_quoteInserted (hp : IsQuotePrefix p) (q t : Text) :
    quoteInserted q (quoteInserted p t) = quoteInserted (q ++ p) t := by
  by_cases ht : t = []
  · subst ht
    rw [quoteInserted_nil_right, quoteInserted_nil_right]
    by_cases hne : p = []
    · subst hne
      rw [List.append_nil]
      exact quoteInserted_nil_right q
    · have htrimmed := hp.trimEnd_ne_nil hne
      have hfree : '\n' ∉ p.trimEnd := fun hmem => hp.no_break (Text.dropTail_subset _ _ hmem)
      rw [quoteInserted_eq_append htrimmed, quoteBreaks_of_no_break hfree,
        Text.trimEnd_append htrimmed]
  · rw [quoteInserted_eq_unlines (quoteInserted_ne_nil hp (.inr ht)),
      breakLines_quoteInserted hp ht, List.map_map, quoteInserted_eq_unlines ht]
    refine congrArg Text.unlines (List.map_congr_left fun line _ => ?_)
    exact (List.append_assoc q p line).symm

/-! ### Expansions -/

/-- Lines open at the start of a text and behind line breaks. -/
theorem opensLine_iff :
    Text.opensLine t.getLast? = true ↔ t = [] ∨ ∃ above, t = above ++ ['\n'] := by
  rcases List.eq_nil_or_concat t with rfl | ⟨above, c, rfl⟩
  · exact iff_of_true rfl (.inl rfl)
  · rw [List.concat_eq_append, List.getLast?_concat]
    simp [Text.opensLine]

/-- What opens a line opens one when the text around it is quoted, and is quoted as it would be by
itself. -/
theorem quoteInserted_middle (hmiddle : middle ≠ [])
    (hopens : Text.opensLine front.getLast? = true) (q back : Text) :
    ∃ front' back', quoteInserted q (front ++ middle ++ back) =
      front' ++ quoteInserted q middle ++ back' ∧ Text.opensLine front'.getLast? = true := by
  have hne : front ++ middle ++ back ≠ [] := by simp [hmiddle]
  rw [quoteInserted_eq_append hne, quoteInserted_eq_append hmiddle, quoteBreaks_append,
    quoteBreaks_append]
  rcases opensLine_iff.mp hopens with rfl | ⟨above, rfl⟩
  · exact ⟨[], quoteBreaks q back, by simp [quoteBreaks], rfl⟩
  · refine ⟨q ++ quoteBreaks q above ++ ['\n'], quoteBreaks q back, ?_,
      opensLine_iff.mpr (.inr ⟨_, rfl⟩)⟩
    rw [quoteBreaks_append]
    simp [quoteBreaks]

theorem opensLine_append {a b : Text} (ha : Text.opensLine a.getLast? = true)
    (hb : Text.opensLine b.getLast? = true) : Text.opensLine (a ++ b).getLast? = true := by
  by_cases hnil : b = []
  · rwa [hnil, List.append_nil]
  · rwa [List.getLast?_append_of_ne_nil _ hnil]

/-- An embed with a quote prefix opens its line. -/
theorem opensLine_of_quoted {e : Hit Embed} (hmem : e ∈ t.scan recogniseEmbed) :
    IsQuotePrefix e.value.quote ∧
      (e.value.quote ≠ [] → Text.opensLine (t.take e.span.start).getLast? = true) := by
  obtain ⟨n, hfound, -⟩ := Text.recognised_of_mem_scan hmem
  obtain ⟨p, -, he⟩ := Option.map_eq_some_iff.mp hfound
  rw [← (Prod.mk.inj he).2]
  refine ⟨⟨_, _, rfl⟩, fun hne => ?_⟩
  by_contra hinside
  refine hne ?_
  unfold quoteAt
  exact if_neg fun h => hinside h.1

/-- What replaces a part that opens a line opens a line, if no part reaches over a line break. -/
theorem exists_splice_of_opensLine {parts : List (Span × Text)} (hfits : t.Fits (parts.map (·.1)))
    (hlines : ∀ part ∈ parts, '\n' ∉ t.slice part.1.start part.1.stop) {s : Span} {new : Text}
    (h : (s, new) ∈ parts) (hopens : Text.opensLine (t.take s.start).getLast? = true) :
    ∃ front back, t.splice parts = front ++ new ++ back ∧
      Text.opensLine front.getLast? = true := by
  obtain ⟨back, hsplice⟩ := Text.exists_splice_eq_of_mem hfits h
  refine ⟨_, back, hsplice, ?_⟩
  have hfits' := hfits.take s.start
  generalize hearlier : parts.filter (·.1.stop ≤ s.start) = earlier at hfits' ⊢
  rcases opensLine_iff.mp hopens with hnil | ⟨above, habove⟩
  · rw [hnil] at hfits' ⊢
    cases earlier with
    | nil => rfl
    | cons part rest =>
      obtain ⟨hlt, hle⟩ := hfits'.2 part.1 (List.mem_cons_self ..)
      exact absurd (Nat.lt_of_lt_of_le hlt hle) (Nat.not_lt_zero _)
  · rw [habove] at hfits' ⊢
    have hbreak : t[above.length]? = some '\n' := by
      rw [← List.take_append_drop s.start t, habove]
      simp
    have hbefore : ∀ part ∈ earlier, part.1.stop ≤ above.length := by
      intro part hpart
      obtain ⟨hlt, hle⟩ := hfits'.2 part.1 (List.mem_map_of_mem hpart)
      rw [List.length_append, List.length_singleton] at hle
      have hmem : part ∈ parts := (List.mem_filter.mp (hearlier ▸ hpart)).1
      by_contra hover
      exact hlines part hmem (Text.mem_slice hbreak (by omega) (by omega))
    have hbehind : earlier.filter (above.length < ·.1.stop) = [] :=
      List.filter_eq_nil_iff.mpr fun part hpart => by simpa using hbefore part hpart
    have hlast : Text.spliceFrom (above ++ ['\n']) above.length [] = ['\n'] := List.drop_left
    rw [Text.splice, Text.spliceFrom_eq_append hfits' (Nat.zero_le above.length)
      fun part hpart => .inl (hbefore part hpart), hbehind, hlast, List.getLast?_concat]
    rfl

namespace Resolver

variable {r : Resolver} {c : Cache}

/-- The prefixes of the embeds on a way, the outermost first. -/
def quotesOf (path : List (Hit Embed)) : Text := path.flatMap (·.value.quote)

theorem Way.isQuotePrefix {t t' : Text} {chain chain' : List DocumentId} {path : List (Hit Embed)}
    (h : r.Way t chain path t' chain') : IsQuotePrefix (quotesOf path) := by
  induction h with
  | here => exact isQuotePrefix_iff.mpr (.inl rfl)
  | down hembed _ _ _ ih =>
    exact (opensLine_of_quoted (mem_scan_of_mem_openEmbeds hembed)).1.append ih

/-- What an embed with a quote prefix brings in stands at the start of a line. -/
theorem exists_expanded_of_reads {t content : Text} {source target : DocumentId}
    {above : List DocumentId} {e : Hit Embed} {part : Part}
    (hends : (r.expander.weave? t source (source :: above) c).isSome) (hembed : e ∈ t.openEmbeds)
    (hquoted : e.value.quote ≠ [])
    (hmeans : (r.seenThrough c).noteMeant source e = some (target, part))
    (hnew : target ∉ source :: above) (hreads : (r.seenThrough c).Reads target part content) :
    ∃ front back, (r.expandVisited c t source (source :: above)).1.text = front ++
      quoteInserted e.value.quote
        (r.expandVisited c content target (target :: source :: above)).1.text ++ back ∧
      Text.opensLine front.getLast? = true := by
  have hmem : (e.span, quoteInserted e.value.quote
      (r.expandVisited c content target (target :: source :: above)).1.text) ∈
        r.insertions c t source above :=
    List.mem_filterMap.mpr ⟨e, hembed, by rw [inserted_of_reads hmeans hnew hreads]; rfl⟩
  have hscan := mem_scan_of_mem_openEmbeds hembed
  rw [expandVisited_text hends]
  refine exists_splice_of_opensLine (fits_insertions r c t source above) (fun part hpart => ?_) hmem
    ((opensLine_of_quoted hscan).2 hquoted)
  obtain ⟨other, hother, hpart⟩ := List.mem_filterMap.mp hpart
  obtain ⟨new, -, rfl⟩ := Option.map_eq_some_iff.mp hpart
  exact (marked_recogniseEmbed.of_mem_scan (mem_scan_of_mem_openEmbeds hother)).2.2

/-- **Quoted embeds on a way add up.** -/
theorem Way.exists_quoted {t t' : Text} {chain chain' : List DocumentId} {path : List (Hit Embed)}
    (h : (r.seenThrough c).Way t chain path t' chain') (hnodup : chain'.Nodup)
    (hquoted : ∀ e ∈ path, e.value.quote ≠ []) :
    ∀ source above, chain = source :: above → (r.expander.weave? t source chain c).isSome →
      ∀ source' above', chain' = source' :: above' →
        ∃ front back, (r.expandVisited c t source chain).1.text =
            front ++ quoteInserted (quotesOf path) (r.expandVisited c t' source' chain').1.text ++
              back ∧
          Text.opensLine front.getLast? = true ∧ (path = [] → front = [] ∧ back = []) := by
  induction h with
  | here =>
    rintro source above rfl - source' above' hchain
    obtain ⟨rfl, -⟩ := List.cons.inj hchain
    exact ⟨[], [], by simp [quotesOf], rfl, fun _ => ⟨rfl, rfl⟩⟩
  | @down t content t' source target above chain' e part path hembed hmeans hreads rest ih =>
    rintro _ _ ⟨⟩ hends source' above' rfl
    have hnodup' := rest.suffix.sublist.nodup hnodup
    have hinner := (Way.down hembed hmeans hreads .here).ends hnodup'
      (by rintro _ _ ⟨⟩; exact hends) _ _ rfl
    obtain ⟨front, back, htext, hopens, hhere⟩ := ih hnodup
      (fun e he => hquoted e (List.mem_cons_of_mem _ he)) _ _ rfl hinner source' above' rfl
    obtain ⟨outer, behind, houter, hopens'⟩ := exists_expanded_of_reads hends hembed
      (hquoted e (List.mem_cons_self ..)) hmeans (List.nodup_cons.mp hnodup').1 hreads
    rw [htext] at houter
    have hquotes : quotesOf (e :: path) = e.value.quote ++ quotesOf path := List.flatMap_cons
    rw [hquotes, ← quoteInserted_quoteInserted rest.isQuotePrefix]
    by_cases hpath : path = []
    · obtain ⟨rfl, rfl⟩ := hhere hpath
      rw [List.nil_append, List.append_nil] at houter
      exact ⟨outer, behind, houter, hopens', fun h => absurd h (List.cons_ne_nil _ _)⟩
    · have hne : quotesOf path ≠ [] := by
        obtain ⟨first, later, rfl⟩ := List.exists_cons_of_ne_nil hpath
        intro hnil
        exact hquoted first (by simp) (List.append_eq_nil_iff.mp hnil).1
      obtain ⟨front', back', hmiddle, hfront⟩ := quoteInserted_middle
        (quoteInserted_ne_nil rest.isQuotePrefix (.inl hne)) hopens e.value.quote back
      rw [hmiddle] at houter
      refine ⟨outer ++ front', back' ++ behind, ?_, opensLine_append hopens' hfront,
        fun h => absurd h (List.cons_ne_nil _ _)⟩
      rw [houter]
      simp only [List.append_assoc]

end Resolver

/-- **Quotes in quotes.** Quoting a text for an embed and then for the embed around it is quoting it
once, with the outer prefix in front of the inner one. Every line of a text is quoted, and of no
text the prefix is left, less its trailing blanks.

So it is in an expansion that ends: what is reached through quoted embeds, however many and whatever
stands around them, stands at the start of a line, as one embed with all their prefixes would have
put it there. -/
theorem nested_quotes (r : Resolver) (c : Cache) :
    (∀ p q t : Text, IsQuotePrefix p →
      quoteInserted q (quoteInserted p t) = quoteInserted (q ++ p) t) ∧
    (∀ p, IsQuotePrefix p → quoteInserted p [] = p.trimEnd ∧
      ∀ t : Text, t ≠ [] → (quoteInserted p t).breakLines = t.breakLines.map (p ++ ·)) ∧
    ∀ t source path t' source' above, (r.expander.weave? t source [source] c).isSome →
      (r.seenThrough c).Way t [source] path t' (source' :: above) → (source' :: above).Nodup →
        (∀ e ∈ path, e.value.quote ≠ []) →
          ∃ front back, (r.expand c t source).1.text = front ++ quoteInserted
              (path.flatMap (·.value.quote))
              (r.expandVisited c t' source' (source' :: above)).1.text ++ back ∧
            Text.opensLine front.getLast? = true := by
  refine ⟨fun p q t hp => quoteInserted_quoteInserted hp q t,
    fun p hp => ⟨quoteInserted_nil_right p, fun t ht => breakLines_quoteInserted hp ht⟩,
    fun t source path t' source' above hends hway hnodup hquoted => ?_⟩
  obtain ⟨front, back, htext, hopens, -⟩ :=
    hway.exists_quoted hnodup hquoted source [] rfl hends source' above rfl
  exact ⟨front, back, htext, hopens⟩

/-- A quoted note in a quoted note: the empty line between its paragraphs is quoted twice too. -/
example :
    let g : MemoryVault := .ofDocuments
      [(.ofPath "a.md".toList, "x\n> ![[b]] y".toList), (.ofPath "b.md".toList, "1\n\n2".toList)] []
    ((Resolver.within g.toCollection none).expand .empty "\t>![[a]]".toList
      (.ofPath "main.md".toList)).1.text = "\t>x\n\t>> 1\n\t>> \n\t>> 2 y".toList := by
  cbv

end NotePress
