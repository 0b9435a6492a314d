import NotePress.Proofs.Anew
import NotePress.Proofs.LineLocal

/-!
# Texts joined by a line break

What stands in `a` and what stands in `b` does not influence each other in `a ++ '\n' :: b`, as long
as the fences of the joined text are those of the two texts. Then its sites are those of `a` and
those of `b`, further on (`Resolver.sitesIn_join`, `Lowering.sitesIn_join`). For the lowering, which
sorts fences, embeds and images together, this is so because sorting and keeping apart work on the
two halves by themselves (`Lowering.arrange_split`).

A site is filled wherever it stands (`Weaver.Moves`), and splicing works on the two halves by
themselves (`Text.splice_join`); so expanding and lowering joined texts is expanding and lowering
each of them (`joined_texts`).
-/

namespace NotePress

/-- The fence `k` characters further on. -/
def Fence.shift (k : Nat) (f : Fence) : Fence := { f with span := f.span.shift k }

/-- The site `k` characters further on. -/
def ExpansionSite.shift (k : Nat) (site : ExpansionSite) : ExpansionSite :=
  { site with span := site.span.shift k }

/-- The site `k` characters further on. -/
def LoweringSite.shift (k : Nat) (site : LoweringSite) : LoweringSite :=
  { site with span := site.span.shift k }

/-- Two woven texts, one in a line behind the other. -/
def Woven.join (first second : Woven) : Woven :=
  ⟨first.text ++ '\n' :: second.text, first.warnings ++ second.warnings⟩

/-! ### Lists of fills -/

theorem mapM_map_of_eq {α β : Type} {f : α → Option β} {move : α → α} {move' : β → β}
    (h : ∀ a, f (move a) = (f a).map move') (xs : List α) :
    (xs.map move).mapM f = (xs.mapM f).map (List.map move') := by
  induction xs with
  | nil => rfl
  | cons a rest ih =>
    rw [List.map_cons, List.mapM_cons, List.mapM_cons, h, ih]
    cases f a with
    | none => rfl
    | some b => cases rest.mapM f <;> rfl

theorem exists_of_mem_mapM {α β : Type} {f : α → Option β} {xs : List α} {ys : List β}
    (h : xs.mapM f = some ys) {b : β} (hb : b ∈ ys) : ∃ a ∈ xs, f a = some b := by
  induction xs generalizing ys with
  | nil =>
    cases h
    cases hb
  | cons a rest ih =>
    rw [List.mapM_cons] at h
    obtain ⟨first, hfirst, h⟩ := Option.bind_eq_some_iff.mp h
    obtain ⟨later, hlater, h⟩ := Option.bind_eq_some_iff.mp h
    cases h
    rcases List.mem_cons.mp hb with rfl | hb
    · exact ⟨a, List.mem_cons_self .., hfirst⟩
    · obtain ⟨a', ha', hfound⟩ := ih hlater hb
      exact ⟨a', List.mem_cons_of_mem _ ha', hfound⟩

/-! ### Splicing -/

namespace Text

/-- A replacement `k` characters further on. -/
def shiftPart (k : Nat) (part : Span × Text) : Span × Text := (part.1.shift k, part.2)

/-- Text in front moves what is put in behind it. -/
theorem spliceFrom_shift (front b : Text) (pos : Nat) (parts : List (Span × Text)) :
    spliceFrom (front ++ b) (pos + front.length) (parts.map (shiftPart front.length)) =
      spliceFrom b pos parts := by
  have hdrop : ∀ pos, (front ++ b).drop (pos + front.length) = b.drop pos := by
    intro pos
    rw [Nat.add_comm, ← List.drop_drop, List.drop_left]
  induction parts generalizing pos with
  | nil => exact hdrop pos
  | cons part rest ih =>
    have hslice : slice (front ++ b) (pos + front.length) (part.1.start + front.length) =
        b.slice pos part.1.start := by
      unfold slice
      rw [hdrop, Nat.add_sub_add_right]
    rw [List.map_cons, spliceFrom, spliceFrom, ← ih]
    show slice _ _ (part.1.start + front.length) ++ _ ++ _ = _
    rw [hslice]
    rfl

/-- Replacements behind the break leave what stands in front of it. -/
theorem spliceFrom_join {a : Text} {pos : Nat} (hpos : pos ≤ a.length) (b : Text)
    (later : List (Span × Text)) :
    spliceFrom (a ++ '\n' :: b) pos (later.map (shiftPart (a.length + 1))) =
      a.drop pos ++ '\n' :: b.splice later := by
  have hlater : ∀ part ∈ later.map (shiftPart (a.length + 1)), a.length + 1 ≤ part.1.start := by
    intro part hpart
    obtain ⟨part', -, rfl⟩ := List.mem_map.mp hpart
    exact Nat.le_add_left _ _
  -- With the break on the left, `b` starts just where its replacements are moved to.
  have hbreak : a ++ '\n' :: b = (a ++ ['\n']) ++ b := by simp
  have hslice : slice ((a ++ ['\n']) ++ b) pos (a.length + 1) = a.drop pos ++ ['\n'] := by
    unfold slice
    rw [List.append_assoc, List.drop_append_of_le_length hpos, List.singleton_append,
      show a.length + 1 - pos = (a.drop pos).length + 1 by rw [List.length_drop]; omega,
      List.take_length_add_append]
    rfl
  have hshift := spliceFrom_shift (a ++ ['\n']) b 0 later
  rw [List.length_append, Nat.zero_add] at hshift
  rw [spliceFrom_eq_slice_append (Nat.le_succ_of_le hpos) hlater, hbreak, hslice]
  show _ ++ spliceFrom (a ++ ['\n'] ++ b) (a.length + ['\n'].length)
    (later.map (shiftPart (a.length + ['\n'].length))) = _
  rw [hshift]
  simp [splice]

/-- **Replacements in two joined texts** are made in each of them. -/
theorem splice_join {a : Text} {parts : List (Span × Text)}
    (hparts : ∀ part ∈ parts, part.1.start ≤ a.length ∧ part.1.stop ≤ a.length) (b : Text)
    (later : List (Span × Text)) :
    splice (a ++ '\n' :: b) (parts ++ later.map (shiftPart (a.length + 1))) =
      a.splice parts ++ '\n' :: b.splice later := by
  have hfrom : ∀ pos ≤ a.length,
      spliceFrom (a ++ '\n' :: b) pos (parts ++ later.map (shiftPart (a.length + 1))) =
        spliceFrom a pos parts ++ '\n' :: b.splice later := by
    induction parts with
    | nil => exact fun pos hpos => spliceFrom_join hpos b later
    | cons part rest ih =>
      intro pos hpos
      obtain ⟨hstart, hstop⟩ := hparts part (List.mem_cons_self ..)
      have hslice : slice (a ++ '\n' :: b) pos part.1.start = a.slice pos part.1.start := by
        unfold slice
        rw [List.drop_append_of_le_length hpos, List.take_append_of_le_length]
        rw [List.length_drop]
        omega
      rw [List.cons_append, spliceFrom, spliceFrom, hslice,
        ih (fun other h => hparts other (List.mem_cons_of_mem _ h)) _ hstop]
      simp only [List.append_assoc]
  exact hfrom 0 (Nat.zero_le _)

end Text

/-! ### Fences and embeds -/

section

variable {a b : Text}
  (hfences : Text.fences (a ++ '\n' :: b) = a.fences ++ b.fences.map (Fence.shift (a.length + 1)))
include hfences

theorem mem_fences_join {f : Fence} :
    f ∈ Text.fences (a ++ '\n' :: b) ↔
      f ∈ a.fences ∨ ∃ f' ∈ b.fences, f'.shift (a.length + 1) = f := by
  rw [hfences, List.mem_append, List.mem_map]

/-- In front of the break, the fences of the first text count. -/
theorem isFenced_join_left {p : Nat} (hp : p ≤ a.length) :
    isFenced (Text.fences (a ++ '\n' :: b)) p = isFenced a.fences p := by
  rw [Bool.eq_iff_iff, Lowering.isFenced_iff, Lowering.isFenced_iff]
  constructor
  · rintro ⟨f, hf, hstart, hstop⟩
    rcases (mem_fences_join hfences).mp hf with hf | ⟨f', -, rfl⟩
    · exact ⟨f, hf, hstart, hstop⟩
    · have hstart : f'.span.start + (a.length + 1) ≤ p := hstart
      omega
  · rintro ⟨f, hf, hcovers⟩
    exact ⟨f, (mem_fences_join hfences).mpr (.inl hf), hcovers⟩

/-- Behind the break, the fences of the second text count. -/
theorem isFenced_join_right (p : Nat) :
    isFenced (Text.fences (a ++ '\n' :: b)) (p + (a.length + 1)) = isFenced b.fences p := by
  rw [Bool.eq_iff_iff, Lowering.isFenced_iff, Lowering.isFenced_iff]
  constructor
  · rintro ⟨f, hf, hstart, hstop⟩
    rcases (mem_fences_join hfences).mp hf with hf | ⟨f', hf', rfl⟩
    · have := (Text.stands_of_mem_fences hf).stop_le_length
      omega
    · exact ⟨f', hf', Nat.le_of_add_le_add_right hstart, Nat.lt_of_add_lt_add_right hstop⟩
  · rintro ⟨f, hf, hstart, hstop⟩
    exact ⟨f.shift (a.length + 1), (mem_fences_join hfences).mpr (.inr ⟨f, hf, rfl⟩),
      Nat.add_le_add_right hstart _, Nat.add_lt_add_right hstop _⟩

/-- **The embeds outside fences** of two joined texts. -/
theorem Text.openEmbeds_join :
    Text.openEmbeds (a ++ '\n' :: b) =
      a.openEmbeds ++ b.openEmbeds.map (Hit.shift (a.length + 1)) := by
  unfold openEmbeds embeds
  simp only
  rw [lineLocal_recogniseEmbed.scan_join, List.filter_append, List.filter_map]
  congr 1
  · refine List.filter_congr fun e he => ?_
    have hstart := (le_start_of_mem_scanFrom he).2
    rw [isFenced_join_left hfences (by omega)]
  · congr 1
    refine List.filter_congr fun e _ => ?_
    show (!isFenced _ (e.span.start + (a.length + 1))) = _
    rw [isFenced_join_right hfences]

theorem Resolver.sitesIn_join (r : Resolver) (source : DocumentId) :
    r.sitesIn (a ++ '\n' :: b) source =
      r.sitesIn a source ++ (r.sitesIn b source).map (ExpansionSite.shift (a.length + 1)) := by
  unfold sitesIn
  rw [Text.openEmbeds_join hfences, List.map_append, List.map_map, List.map_map]
  rfl

end

/-! ### Arranging -/

namespace Lowering

/-- A site goes in among those that start before a place where all others start. -/
theorem insertSite_append_left {site : LoweringSite} {near far : List LoweringSite}
    (h : ∀ other ∈ far, site.span.start < other.span.start) :
    insertSite site (near ++ far) = insertSite site near ++ far := by
  induction near with
  | nil =>
    cases far with
    | nil => rfl
    | cons other rest =>
      have hbefore : goesBefore site other = true :=
        goesBefore_iff.mpr (.inl (h other (List.mem_cons_self ..)))
      simp [insertSite, hbefore]
  | cons other rest ih =>
    rw [List.cons_append, insertSite, insertSite, ih]
    split <;> rfl

/-- A site goes in behind those that start before it. -/
theorem insertSite_append_right {site : LoweringSite} {near far : List LoweringSite}
    (h : ∀ other ∈ near, other.span.start < site.span.start) :
    insertSite site (near ++ far) = near ++ insertSite site far := by
  induction near with
  | nil => rfl
  | cons other rest ih =>
    have hstart := h other (List.mem_cons_self ..)
    have hbehind : goesBefore site other = false := by
      rw [Bool.eq_false_iff, Ne, goesBefore_iff]
      omega
    rw [List.cons_append, insertSite, hbehind,
      ih fun other' h' => h other' (List.mem_cons_of_mem _ h')]
    rfl

/-- Sites are sorted on both sides of a place by themselves. -/
theorem foldl_insertSite_split (k : Nat) (sites : List LoweringSite) {near far : List LoweringSite}
    (hnear : ∀ site ∈ near, site.span.start < k) (hfar : ∀ site ∈ far, k ≤ site.span.start) :
    sites.foldl (fun kept site => insertSite site kept) (near ++ far) =
      (sites.filter (·.span.start < k)).foldl (fun kept site => insertSite site kept) near ++
        (sites.filter (k ≤ ·.span.start)).foldl (fun kept site => insertSite site kept) far := by
  induction sites generalizing near far with
  | nil => rfl
  | cons site rest ih =>
    rw [List.foldl_cons]
    by_cases hk : site.span.start < k
    · rw [insertSite_append_left fun other h => Nat.lt_of_lt_of_le hk (hfar other h), ih _ hfar]
      · simp [hk]
      · intro other hother
        rcases List.mem_cons.mp ((insertSite_perm site near).subset hother) with rfl | hother
        · exact hk
        · exact hnear other hother
    · have hle := Nat.le_of_not_lt hk
      rw [insertSite_append_right fun other h => Nat.lt_of_lt_of_le (hnear other h) hle, ih hnear]
      · simp [hk, hle]
      · intro other hother
        rcases List.mem_cons.mp ((insertSite_perm site far).subset hother) with rfl | hother
        · exact hle
        · exact hfar other hother

/-- Where all sites start behind `free` it does not matter. -/
theorem keepApart_free {free : Nat} {sites : List LoweringSite}
    (h : ∀ site ∈ sites, free ≤ site.span.start) : keepApart free sites = keepApart 0 sites := by
  cases sites with
  | nil => rfl
  | cons site rest =>
    rw [keepApart, keepApart, if_pos (h site (List.mem_cons_self ..)), if_pos (Nat.zero_le _)]

/-- Sites are kept apart on both sides of a place by themselves. -/
theorem keepApart_append {k free : Nat} {near far : List LoweringSite} (hfree : free ≤ k)
    (hnear : ∀ site ∈ near, site.span.stop ≤ k) (hfar : ∀ site ∈ far, k ≤ site.span.start) :
    keepApart free (near ++ far) = keepApart free near ++ keepApart 0 far := by
  induction near generalizing free with
  | nil => exact keepApart_free fun site h => Nat.le_trans hfree (hfar site h)
  | cons site rest ih =>
    have hrest := fun other h => hnear other (List.mem_cons_of_mem site h)
    rw [List.cons_append, keepApart, keepApart, ih (hnear site (List.mem_cons_self ..)) hrest,
      ih hfree hrest]
    split <;> rfl

/-- **Sites are arranged on both sides of a place by themselves.** -/
theorem arrange_split {k : Nat} {sites : List LoweringSite}
    (h : ∀ site ∈ sites, site.span.start < k → site.span.stop ≤ k) :
    arrange sites = arrange (sites.filter (·.span.start < k)) ++
      arrange (sites.filter (k ≤ ·.span.start)) := by
  have hmem : ∀ (part : List LoweringSite), ∀ site ∈
      part.foldl (fun kept site => insertSite site kept) [], site ∈ part := by
    intro part site hsite
    have := (foldl_insertSite_perm part []).subset hsite
    rwa [List.append_nil] at this
  unfold arrange
  rw [show ([] : List LoweringSite) = [] ++ [] from rfl,
    foldl_insertSite_split k sites (by simp) (by simp)]
  refine keepApart_append (Nat.zero_le k) (fun site hsite => ?_) fun site hsite => ?_
  · obtain ⟨hsite, hk⟩ := List.mem_filter.mp (hmem _ site hsite)
    exact h site hsite (by simpa using hk)
  · obtain ⟨-, hk⟩ := List.mem_filter.mp (hmem _ site hsite)
    simpa using hk

theorem insertSite_shift (k : Nat) (site : LoweringSite) (sites : List LoweringSite) :
    insertSite (site.shift k) (sites.map (LoweringSite.shift k)) =
      (insertSite site sites).map (LoweringSite.shift k) := by
  induction sites with
  | nil => rfl
  | cons other rest ih =>
    have hbefore : goesBefore (site.shift k) (other.shift k) = goesBefore site other := by
      simp [goesBefore, LoweringSite.shift, Span.shift]
    rw [List.map_cons, insertSite, insertSite, hbefore, ih]
    split <;> rfl

theorem keepApart_shift (k free : Nat) (sites : List LoweringSite) :
    keepApart (free + k) (sites.map (LoweringSite.shift k)) =
      (keepApart free sites).map (LoweringSite.shift k) := by
  induction sites generalizing free with
  | nil => rfl
  | cons site rest ih =>
    have hstart : free + k ≤ (site.shift k).span.start ↔ free ≤ site.span.start :=
      Nat.add_le_add_iff_right
    have hstop : (site.shift k).span.stop = site.span.stop + k := rfl
    rw [List.map_cons, keepApart, keepApart, hstop, ih, ih]
    by_cases h : free ≤ site.span.start
    · rw [if_pos h, if_pos (hstart.mpr h)]
      rfl
    · rw [if_neg h, if_neg fun h' => h (hstart.mp h')]

/-- Where sites stand does not matter to their arrangement. -/
theorem arrange_shift (k : Nat) (sites : List LoweringSite) :
    arrange (sites.map (LoweringSite.shift k)) =
      (arrange sites).map (LoweringSite.shift k) := by
  have hsort : ∀ kept : List LoweringSite,
      (sites.map (LoweringSite.shift k)).foldl (fun kept site => insertSite site kept)
          (kept.map (LoweringSite.shift k)) =
        (sites.foldl (fun kept site => insertSite site kept) kept).map (LoweringSite.shift k) := by
    intro kept
    induction sites generalizing kept with
    | nil => rfl
    | cons site rest ih =>
      rw [List.map_cons, List.foldl_cons, List.foldl_cons, insertSite_shift, ih]
  unfold arrange
  rw [show ([] : List LoweringSite) = [].map (LoweringSite.shift k) from rfl, hsort,
    ← keepApart_shift, ← @keepApart_free (0 + k)]
  · rfl
  · intro site hsite
    obtain ⟨site', -, rfl⟩ := List.mem_map.mp hsite
    exact Nat.le_trans (Nat.le_of_eq (Nat.zero_add k)) (Nat.le_add_left _ _)

/-! ### Constructs -/

theorem sitesMeant_append {α : Type} (meant : α → Option Construct) (hits hits' : List (Hit α)) :
    sitesMeant meant (hits ++ hits') = sitesMeant meant hits ++ sitesMeant meant hits' :=
  List.filterMap_append

theorem sitesMeant_shift {α : Type} (meant : α → Option Construct) (k : Nat)
    (hits : List (Hit α)) :
    sitesMeant meant (hits.map (Hit.shift k)) =
      (sitesMeant meant hits).map (LoweringSite.shift k) := by
  unfold sitesMeant
  rw [List.filterMap_map, List.map_filterMap]
  refine List.filterMap_congr fun h _ => ?_
  show (meant h.value).map _ = ((meant h.value).map _).map _
  rw [Option.map_map]
  rfl

/-- Places in front of `n`. -/
theorem filter_of_start_lt {n : Nat} {sites : List LoweringSite}
    (h : ∀ site ∈ sites, site.span.start < n) :
    sites.filter (·.span.start < n) = sites ∧ sites.filter (n ≤ ·.span.start) = [] := by
  refine ⟨List.filter_eq_self.mpr fun site hsite => ?_,
    List.filter_eq_nil_iff.mpr fun site hsite => ?_⟩
  · simpa using h site hsite
  · simpa using h site hsite

/-- Places that are moved by `n`. -/
theorem filter_shift (n : Nat) (sites : List LoweringSite) :
    (sites.map (LoweringSite.shift n)).filter (·.span.start < n) = [] ∧
      (sites.map (LoweringSite.shift n)).filter (n ≤ ·.span.start) =
        sites.map (LoweringSite.shift n) := by
  have hle : ∀ site ∈ sites.map (LoweringSite.shift n), n ≤ site.span.start := by
    intro site hsite
    obtain ⟨site', -, rfl⟩ := List.mem_map.mp hsite
    exact Nat.le_add_left _ _
  refine ⟨List.filter_eq_nil_iff.mpr fun site hsite => ?_,
    List.filter_eq_self.mpr fun site hsite => ?_⟩
  · simpa using hle site hsite
  · simpa using hle site hsite

section

variable {a b : Text}
  (hfences : Text.fences (a ++ '\n' :: b) = a.fences ++ b.fences.map (Fence.shift (a.length + 1)))
include hfences

/-- The places of two joined texts, those in front of the break and those behind it. -/
theorem filter_candidates_join (l : Lowering) (source : DocumentId) :
    (l.candidates (a ++ '\n' :: b) source).filter (·.span.start < a.length + 1) =
        l.candidates a source ∧
      (l.candidates (a ++ '\n' :: b) source).filter (a.length + 1 ≤ ·.span.start) =
        (l.candidates b source).map (LoweringSite.shift (a.length + 1)) := by
  -- Each kind of place is listed for both texts before the next kind, so the list of the joined
  -- text is not the one list and then the other.
  have hfenceSites : l.fenceSites (a ++ '\n' :: b) =
      l.fenceSites a ++ (l.fenceSites b).map (LoweringSite.shift (a.length + 1)) := by
    unfold fenceSites
    rw [hfences, List.map_append, List.map_map, List.map_map]
    rfl
  have hnear : ∀ sites ⊆ l.candidates a source,
      sites.filter (·.span.start < a.length + 1) = sites ∧
        sites.filter (a.length + 1 ≤ ·.span.start) = [] := fun sites hsub =>
    filter_of_start_lt fun site hsite => by
      have := candidate_lt (hsub hsite)
      omega
  have hfar := filter_shift (a.length + 1)
  unfold candidates at *
  have hsub := List.append_subset.mp (List.Subset.refl
    (l.fenceSites a ++ sitesMeant (l.embedMeant source) (a.scan recogniseAttributedEmbed) ++
      sitesMeant (l.imageMeant source) (a.scan recogniseImage)))
  have hsub' := List.append_subset.mp hsub.1
  rw [hfenceSites, lineLocal_recogniseAttributedEmbed.scan_join,
    lineLocal_recogniseImage.scan_join, sitesMeant_append, sitesMeant_append, sitesMeant_shift,
    sitesMeant_shift]
  simp only [List.filter_append, hnear _ hsub'.1, hnear _ hsub'.2, hnear _ hsub.2, hfar,
    List.append_nil, List.nil_append, List.map_append, and_self]

/-- **The constructs of two joined texts.** -/
theorem sitesIn_join (l : Lowering) (source : DocumentId) :
    l.sitesIn (a ++ '\n' :: b) source =
      l.sitesIn a source ++ (l.sitesIn b source).map (LoweringSite.shift (a.length + 1)) := by
  obtain ⟨hnear, hfar⟩ := filter_candidates_join hfences l source
  unfold sitesIn
  rw [arrange_split (k := a.length + 1), hnear, hfar, arrange_shift]
  intro site hsite hlt
  have hmem : site ∈ l.candidates a source := by
    rw [← hnear]
    exact List.mem_filter.mpr ⟨hsite, decide_eq_true hlt⟩
  have := candidate_lt hmem
  omega

end

end Lowering

/-! ### Weaving -/

namespace Weaver

variable {σ : Type} {w : Weaver σ} {move : Nat → σ → σ}

/-- Sites may be moved: nothing but their place depends on where they stand. -/
structure Moves (w : Weaver σ) (move : Nat → σ → σ) : Prop where
  span : ∀ k site, w.span (move k site) = (w.span site).shift k
  asks : ∀ k site, w.asks (move k site) = w.asks site
  without : ∀ k source site why, w.without source (move k site) why = w.without source site why
  frame : ∀ k site t, w.frame (move k site) t = w.frame site t

/-- What fills a site, `k` characters further on. -/
def shiftFilled (k : Nat) (filled : Option (Span × Text) × List Warning) :
    Option (Span × Text) × List Warning :=
  (filled.1.map (Text.shiftPart k), filled.2)

/-- A site is filled wherever it stands. -/
theorem Moves.fillAnew? (h : w.Moves move) (bring : Text → DocumentId → Option Woven)
    (source : DocumentId) (visited : List DocumentId) (k : Nat) (site : σ) :
    w.fillAnew? bring source visited (move k site) =
      (w.fillAnew? bring source visited site).map (shiftFilled k) := by
  have hanswer : w.answer visited (move k site) w.collection =
      w.answer visited site w.collection := by
    unfold answer
    rw [h.asks]
  unfold Weaver.fillAnew?
  rw [hanswer]
  cases w.answer visited site w.collection with
  | error why =>
    simp only [h.without, h.span, shiftFilled, Option.map_some, Option.map_map]
    rfl
  | ok granted =>
    simp only [h.span, h.frame, Option.map_map]
    rfl

/-- What fills a site takes the place of the site. -/
theorem span_of_fillAnew? {bring : Text → DocumentId → Option Woven} {source : DocumentId}
    {visited : List DocumentId} {site : σ} {filled : Option (Span × Text) × List Warning}
    (h : w.fillAnew? bring source visited site = some filled) {part : Span × Text}
    (hpart : filled.1 = some part) : part.1 = w.span site := by
  unfold fillAnew? at h
  split at h
  · cases h
    obtain ⟨new, -, rfl⟩ := Option.map_eq_some_iff.mp hpart
    rfl
  · obtain ⟨inner, -, rfl⟩ := Option.map_eq_some_iff.mp h
    cases hpart
    rfl

/-- **Two joined texts are woven each by itself**, if the sites of the joined text are theirs. -/
theorem Moves.weaveAnew?_join (h : w.Moves move) {found : Text → DocumentId → List σ} {a b : Text}
    {source : DocumentId}
    (hfound : found (a ++ '\n' :: b) source =
      found a source ++ (found b source).map (move (a.length + 1)))
    (hlt : ∀ site ∈ found a source, (w.span site).start < (w.span site).stop ∧
      (w.span site).stop ≤ a.length) (visited : List DocumentId) :
    w.weaveAnew? found (a ++ '\n' :: b) source visited =
      (w.weaveAnew? found a source visited).bind fun first =>
        (w.weaveAnew? found b source visited).map first.join := by
  rw [weaveAnew?_eq w found (a ++ '\n' :: b), weaveAnew?_eq w found a source,
    weaveAnew?_eq w found b source, hfound, List.mapM_append,
    mapM_map_of_eq (h.fillAnew? _ source visited (a.length + 1))]
  cases hfilled : (found a source).mapM (w.fillAnew? (fun content target =>
      w.weaveAnew? found content target (target :: visited)) source visited) with
  | none => rfl
  | some filled =>
    have hparts : ∀ part ∈ filled.filterMap (·.1),
        part.1.start ≤ a.length ∧ part.1.stop ≤ a.length := by
      intro part hpart
      obtain ⟨new, hnew, hpart⟩ := List.mem_filterMap.mp hpart
      obtain ⟨site, hsite, hfill⟩ := exists_of_mem_mapM hfilled hnew
      have := hlt site hsite
      rw [span_of_fillAnew? hfill hpart]
      omega
    cases (found b source).mapM (w.fillAnew? (fun content target =>
        w.weaveAnew? found content target (target :: visited)) source visited) with
    | none => rfl
    | some later =>
      have hlater : (later.map (shiftFilled (a.length + 1))).filterMap (·.1) =
          (later.filterMap (·.1)).map (Text.shiftPart (a.length + 1)) := by
        rw [List.filterMap_map, List.map_filterMap]
        rfl
      have hwarnings : (later.map (shiftFilled (a.length + 1))).flatMap (·.2) =
          later.flatMap (·.2) := by
        rw [List.flatMap_map]
        rfl
      show some (Woven.mk (Text.splice (a ++ '\n' :: b)
        ((filled ++ later.map (shiftFilled (a.length + 1))).filterMap (·.1)))
          ((filled ++ later.map (shiftFilled (a.length + 1))).flatMap (·.2))) = _
      rw [List.filterMap_append, List.flatMap_append, hlater, hwarnings,
        Text.splice_join hparts]
      rfl

end Weaver

/-! ### Expanding and lowering -/

theorem Resolver.moves_expander (r : Resolver) : r.expander.Moves ExpansionSite.shift :=
  ⟨fun _ _ => rfl, fun _ _ => rfl, fun _ _ _ _ => rfl, fun _ _ _ => rfl⟩

theorem Lowering.moves_lowerer (l : Lowering) : l.lowerer.Moves LoweringSite.shift :=
  ⟨fun _ _ => rfl, fun _ _ => rfl, fun _ _ _ _ => rfl, fun _ _ _ => rfl⟩

section

variable {a b : Text}
  (hfences : Text.fences (a ++ '\n' :: b) = a.fences ++ b.fences.map (Fence.shift (a.length + 1)))
include hfences

theorem Resolver.expandAnew?_join (r : Resolver) (source : DocumentId) :
    r.expandAnew? (a ++ '\n' :: b) source =
      (r.expandAnew? a source).bind fun first => (r.expandAnew? b source).map first.join := by
  refine r.moves_expander.weaveAnew?_join (r.sitesIn_join hfences source) ?_ _
  intro site hsite
  obtain ⟨e, he, rfl⟩ := List.mem_map.mp hsite
  have hhit := marked_recogniseEmbed.of_mem_scan (List.mem_filter.mp he).1
  exact ⟨hhit.1, hhit.2.1⟩

theorem Lowering.passAnew?_join (l : Lowering) (source : DocumentId) :
    l.passAnew? (a ++ '\n' :: b) source =
      (l.passAnew? a source).bind fun first =>
        (l.passAnew? b source).map fun second => first ++ '\n' :: second := by
  unfold passAnew?
  rw [l.moves_lowerer.weaveAnew?_join (l.sitesIn_join hfences source)
    fun site hsite => candidate_lt (mem_of_mem_arrange hsite)]
  cases l.lowerer.weaveAnew? l.sitesIn a source [source] with
  | none => rfl
  | some first => cases l.lowerer.weaveAnew? l.sitesIn b source [source] <;> rfl

end

/-- Runs that end as their references do, joined as these are. -/
theorem eq_of_joined {α : Type} {joined? first? second? : Option α} {join : α → α → α}
    (h : joined? = first?.bind fun first => second?.map (join first)) {P P₁ P₂ : Prop}
    {x x₁ x₂ : α} (hjoined : ∀ y, joined? = some y ↔ P ∧ x = y)
    (hfirst : ∀ y, first? = some y ↔ P₁ ∧ x₁ = y)
    (hsecond : ∀ y, second? = some y ↔ P₂ ∧ x₂ = y) :
    (P ↔ P₁ ∧ P₂) ∧ (P → x = join x₁ x₂) := by
  have hboth : P₁ ∧ P₂ → joined? = some (join x₁ x₂) := by
    rintro ⟨h₁, h₂⟩
    rw [h, (hfirst _).mpr ⟨h₁, rfl⟩, (hsecond _).mpr ⟨h₂, rfl⟩]
    rfl
  have hends : P → P₁ ∧ P₂ := by
    intro hP
    have hx := (hjoined x).mpr ⟨hP, rfl⟩
    rw [h] at hx
    obtain ⟨y₁, hy₁, hx⟩ := Option.bind_eq_some_iff.mp hx
    obtain ⟨y₂, hy₂, -⟩ := Option.map_eq_some_iff.mp hx
    exact ⟨((hfirst _).mp hy₁).1, ((hsecond _).mp hy₂).1⟩
  exact ⟨⟨hends, fun hP => ((hjoined _).mp (hboth hP)).1⟩,
    fun hP => ((hjoined _).mp (hboth (hends hP))).2⟩

/-- **Texts do not influence each other across a line break.** If the fences of two texts joined by
a line break are those of the first text and those of the second one, then expanding the joined text
ends if and only if expanding both texts does; its text is the two joined in the same way, and its
warnings are those of the first one and then those of the second one. A pass of the lowering over
the joined text gives what it gives for the two texts. Each run may have a coherent cache of its
own. -/
theorem joined_texts (l : Lowering) {c c₁ c₂ : Cache} (h : c.Coherent l.resolver.collection)
    (h₁ : c₁.Coherent l.resolver.collection) (h₂ : c₂.Coherent l.resolver.collection) (a b : Text)
    (source : DocumentId)
    (hfences : Text.fences (a ++ '\n' :: b) =
      a.fences ++ b.fences.map (Fence.shift (a.length + 1))) :
    ((l.resolver.ExpandEnds .listed c (a ++ '\n' :: b) source ↔
        l.resolver.ExpandEnds .listed c₁ a source ∧ l.resolver.ExpandEnds .listed c₂ b source) ∧
      (l.resolver.ExpandEnds .listed c (a ++ '\n' :: b) source →
        (l.resolver.expand c (a ++ '\n' :: b) source).1 =
          (l.resolver.expand c₁ a source).1.join (l.resolver.expand c₂ b source).1)) ∧
    (l.PassEnds c source (a ++ '\n' :: b) ↔ l.PassEnds c₁ source a ∧ l.PassEnds c₂ source b) ∧
      (l.PassEnds c source (a ++ '\n' :: b) →
        (l.pass c (a ++ '\n' :: b) source).1 =
          (l.pass c₁ a source).1 ++ '\n' :: (l.pass c₂ b source).1) := by
  constructor
  · exact eq_of_joined (l.resolver.expandAnew?_join hfences source)
      (l.resolver.expand_as_anew h _ source).result
      (l.resolver.expand_as_anew h₁ a source).result
      (l.resolver.expand_as_anew h₂ b source).result
  · exact eq_of_joined (l.passAnew?_join hfences source)
      (fun _ => Lowering.passAnew?_eq_some_iff (Cache.coherent_iff.mp h))
      (fun _ => Lowering.passAnew?_eq_some_iff (Cache.coherent_iff.mp h₁))
      (fun _ => Lowering.passAnew?_eq_some_iff (Cache.coherent_iff.mp h₂))

/-- A quoted embed in front of the line break, and behind it a fence and an embed. -/
theorem joined_texts_quoted :
    let l := Lowering.of mutualVault.toCollection {} true
    let a : Text := "> ![[b]] ![[none]]".toList
    let b : Text := "```\n![[a]]\n```\n![[a]]".toList
    let source := DocumentId.ofPath "main.md".toList
    (halfWarm.Coherent mutualVault.toCollection ∧ Text.fences (a ++ '\n' :: b) =
        a.fences ++ b.fences.map (Fence.shift (a.length + 1))) ∧
    ((l.resolver.ExpandEnds .listed halfWarm (a ++ '\n' :: b) source ↔
        l.resolver.ExpandEnds .listed .empty a source ∧
          l.resolver.ExpandEnds .listed halfWarm b source) ∧
      (l.resolver.ExpandEnds .listed halfWarm (a ++ '\n' :: b) source →
        (l.resolver.expand halfWarm (a ++ '\n' :: b) source).1 =
          (l.resolver.expand .empty a source).1.join (l.resolver.expand halfWarm b source).1)) ∧
    (l.PassEnds halfWarm source (a ++ '\n' :: b) ↔
        l.PassEnds .empty source a ∧ l.PassEnds halfWarm source b) ∧
      (l.PassEnds halfWarm source (a ++ '\n' :: b) →
        (l.pass halfWarm (a ++ '\n' :: b) source).1 =
          (l.pass .empty a source).1 ++ '\n' :: (l.pass halfWarm b source).1) := by
  intro l a b source
  have hfences : Text.fences (a ++ '\n' :: b) =
      a.fences ++ b.fences.map (Fence.shift (a.length + 1)) := by decide +kernel
  exact ⟨⟨coherent_halfWarm, hfences⟩,
    joined_texts l coherent_halfWarm (Cache.coherent_empty _) coherent_halfWarm a b source hfences⟩

end NotePress
