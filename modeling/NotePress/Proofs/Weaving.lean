import NotePress.Proofs.Reading

/-!
# Runs of a weaver

The equations of `Weaver.fillSites` and `Weaver.weave?` with the site's answer spelled out, and two
facts about whole runs: a weaving that ends leaves what is seen through the cache as it was, and it
depends on the cache only through that. So a woven text is a splice of what stands at its sites,
each by itself (`Weaver.filled`, `Weaver.weave_eq`), and `Weaver.weave_induct` is the induction over
runs that end with the cache left out.
-/

namespace NotePress.Weaver

variable {σ : Type} {w : Weaver σ}

/-- The sites that a weaver finds, said of the collection as it is seen. -/
def Finds (w : Weaver σ) (found : Text → DocumentId → Collection → List σ) : Prop :=
  ∀ t source visited, ReadsThrough w.collection (w.find t source visited) (found t source)

/-! ### Equations -/

section

variable {bring : Bringing} {source : DocumentId} {visited : List DocumentId} {site : σ}
  {rest : List σ} {c : Cache}

/-- A site into which nothing is brought. -/
theorem fillSites_refused {why : Option Refusal} {c₁ : Cache}
    (h : w.ask visited site c = (.error why, c₁)) :
    w.fillSites bring source visited (site :: rest) c =
      (w.fillSites bring source visited rest c₁).map fun out =>
        ((w.without source site why).1.toList.map (w.span site, ·) ++ out.1,
          (w.without source site why).2 ++ out.2.1, out.2.2) := by
  rw [fillSites, h, Option.map_eq_bind]
  rfl

/-- A site into which a part of a note is brought. -/
theorem fillSites_granted {target : DocumentId} {content : Text} {c₁ : Cache}
    (h : w.ask visited site c = (.ok (target, content), c₁)) :
    w.fillSites bring source visited (site :: rest) c =
      (bring content target c₁).bind fun inner =>
        (w.fillSites bring source visited rest inner.2).map fun out =>
          ((w.span site, w.frame site inner.1.text) :: out.1,
            inner.1.warnings ++ out.2.1, out.2.2) := by
  simp only [fillSites, h, Option.map_eq_bind]
  rfl

end

/-- **One step of the recursion**: the sites are found and filled, and what fills them is put in. -/
theorem weave?_eq (w : Weaver σ) (t : Text) (source : DocumentId) (visited : List DocumentId)
    (c : Cache) :
    w.weave? t source visited c =
      (w.fillSites (fun content target => w.weave? content target (target :: visited)) source
        visited (w.find t source visited c).1 (w.find t source visited c).2).map
        fun out => (⟨t.splice out.1, out.2.1⟩, out.2.2) := by
  rw [weave?, Option.map_eq_bind]
  rfl

/-- To show something of every run that ends, show it of a text when it holds of all brought in. -/
theorem weave?_induct (w : Weaver σ)
    {P : Text → DocumentId → List DocumentId → Cache → Woven × Cache → Prop}
    (step : ∀ (bring : Text → DocumentId → List DocumentId → Cache → Option (Woven × Cache)),
      (∀ t source visited c out, bring t source visited c = some out → P t source visited c out) →
      ∀ t source visited c out,
        w.fillSites (fun content target => bring content target (target :: visited)) source visited
            (w.find t source visited c).1 (w.find t source visited c).2 = some out →
          P t source visited c (⟨t.splice out.1, out.2.1⟩, out.2.2))
    {t : Text} {source : DocumentId} {visited : List DocumentId} {c : Cache} {out : Woven × Cache}
    (h : w.weave? t source visited c = some out) : P t source visited c out := by
  refine weave?.partial_correctness w P (fun bring ih t source visited c out h => ?_) t source
    visited c out h
  cases e : w.fillSites (fun content target => bring content target (target :: visited)) source
      visited (w.find t source visited c).1 (w.find t source visited c).2 with
  | none =>
    simp only [e] at h
    cases h
  | some filled =>
    simp only [e] at h
    cases h
    exact step bring ih t source visited c filled e

/-! ### What is seen -/

theorem seenThrough_ask (w : Weaver σ) (visited : List DocumentId) (site : σ) {c c₁ : Cache}
    {a : Except (Option Refusal) (DocumentId × Text)} (h : w.ask visited site c = (a, c₁)) :
    w.collection.seenThrough c₁ = w.collection.seenThrough c := by
  have := (w.readsThrough_ask visited site).seen c
  rwa [h] at this

theorem answer_of_ask (w : Weaver σ) (visited : List DocumentId) (site : σ) {c c₁ : Cache}
    {a : Except (Option Refusal) (DocumentId × Text)} (h : w.ask visited site c = (a, c₁)) :
    w.answer visited site (w.collection.seenThrough c) = a := by
  have := (w.readsThrough_ask visited site).result c
  rwa [h, eq_comm] at this

/-- Filling sites does not change what is seen, if bringing notes in does not. -/
theorem seenThrough_fillSites {bring : Bringing}
    (hbring : ∀ t d c out, bring t d c = some out →
      w.collection.seenThrough out.2 = w.collection.seenThrough c)
    {source : DocumentId} {visited : List DocumentId} {sites : List σ} {c : Cache}
    {out : List (Span × Text) × List Warning × Cache}
    (h : w.fillSites bring source visited sites c = some out) :
    w.collection.seenThrough out.2.2 = w.collection.seenThrough c := by
  induction sites generalizing c out with
  | nil =>
    cases h
    rfl
  | cons site rest ih =>
    rcases hask : w.ask visited site c with ⟨_ | ⟨target, content⟩, c₁⟩
    · rw [fillSites_refused hask] at h
      obtain ⟨out', h', rfl⟩ := Option.map_eq_some_iff.mp h
      exact (ih h').trans (seenThrough_ask w visited site hask)
    · rw [fillSites_granted hask] at h
      obtain ⟨inner, hinner, h⟩ := Option.bind_eq_some_iff.mp h
      obtain ⟨out', h', rfl⟩ := Option.map_eq_some_iff.mp h
      exact (ih h').trans ((hbring _ _ _ _ hinner).trans (seenThrough_ask w visited site hask))

/-- Sites are filled, if bringing in what they are granted ends. -/
theorem fillSites_isSome {bring : Bringing} {g : Collection}
    (hseen : ∀ t d c out, bring t d c = some out →
      w.collection.seenThrough out.2 = w.collection.seenThrough c)
    {source : DocumentId} {visited : List DocumentId} {sites : List σ}
    (hbring : ∀ site ∈ sites, ∀ target content,
      w.answer visited site g = .ok (target, content) → ∀ c, w.collection.seenThrough c = g →
        (bring content target c).isSome)
    {c : Cache} (hc : w.collection.seenThrough c = g) :
    (w.fillSites bring source visited sites c).isSome := by
  induction sites generalizing c with
  | nil => rfl
  | cons site rest ih =>
    have ih := @ih fun other h => hbring other (List.mem_cons_of_mem _ h)
    rcases hask : w.ask visited site c with ⟨_ | ⟨target, content⟩, c₁⟩
    · rw [fillSites_refused hask, Option.isSome_map]
      exact ih ((seenThrough_ask w visited site hask).trans hc)
    · have hc₁ := (seenThrough_ask w visited site hask).trans hc
      have hanswer := w.answer_of_ask visited site hask
      rw [hc] at hanswer
      obtain ⟨inner, hinner⟩ := Option.isSome_iff_exists.mp
        (hbring site (List.mem_cons_self ..) target content hanswer c₁ hc₁)
      rw [fillSites_granted hask, hinner, Option.bind_some, Option.isSome_map]
      exact ih ((hseen _ _ _ _ hinner).trans hc₁)

/-- A weaving that ends does not change what is seen. -/
theorem seenThrough_weave? {found : Text → DocumentId → Collection → List σ} (hfind : w.Finds found)
    {t : Text} {source : DocumentId} {visited : List DocumentId} {c : Cache} {out : Woven × Cache}
    (h : w.weave? t source visited c = some out) :
    w.collection.seenThrough out.2 = w.collection.seenThrough c := by
  refine w.weave?_induct (P := fun _ _ _ c out =>
    w.collection.seenThrough out.2 = w.collection.seenThrough c) ?_ h
  intro bring ih t source visited c out h
  exact (seenThrough_fillSites (fun _ _ _ _ h => ih _ _ _ _ _ h) h).trans
    ((hfind t source visited).seen c)

/-- A weaving ends if every weaving of what it brings in does. -/
theorem weave?_isSome_of_granted {found : Text → DocumentId → Collection → List σ}
    (hfind : w.Finds found) {t : Text} {source : DocumentId} {visited : List DocumentId}
    {c : Cache} {g : Collection} (hc : w.collection.seenThrough c = g)
    (h : ∀ site ∈ found t source g, ∀ target content,
      w.answer visited site g = .ok (target, content) → ∀ c', w.collection.seenThrough c' = g →
        (w.weave? content target (target :: visited) c').isSome) :
    (w.weave? t source visited c).isSome := by
  have hfound := hfind t source visited
  rw [weave?_eq, Option.isSome_map, hfound.result, hc]
  exact fillSites_isSome (fun _ _ _ _ h => seenThrough_weave? hfind h) h
    ((hfound.seen c).trans hc)

/-! ### Runs without their cache -/

section

variable {found : Text → DocumentId → Collection → List σ}

/-- Filling sites gives the same through caches that show the same, if bringing notes in does. -/
theorem fillSites_congr {bring bring' : Bringing}
    (hseen : ∀ t d c out, bring t d c = some out →
      w.collection.seenThrough out.2 = w.collection.seenThrough c)
    (hbring : ∀ t d c out, bring t d c = some out →
      ∀ c', w.collection.seenThrough c' = w.collection.seenThrough c →
        ∃ c'', bring' t d c' = some (out.1, c'') ∧
          w.collection.seenThrough c'' = w.collection.seenThrough c)
    {source : DocumentId} {visited : List DocumentId} {sites : List σ} {c c' : Cache}
    {out : List (Span × Text) × List Warning × Cache}
    (h : w.fillSites bring source visited sites c = some out)
    (hc : w.collection.seenThrough c' = w.collection.seenThrough c) :
    ∃ c'', w.fillSites bring' source visited sites c' = some (out.1, out.2.1, c'') ∧
      w.collection.seenThrough c'' = w.collection.seenThrough c := by
  induction sites generalizing c c' out with
  | nil =>
    cases h
    exact ⟨c', rfl, hc⟩
  | cons site rest ih =>
    rcases hask : w.ask visited site c with ⟨answer, c₁⟩
    rcases hask' : w.ask visited site c' with ⟨answer', c₁'⟩
    have hanswer : answer' = answer := by
      rw [← w.answer_of_ask visited site hask, ← w.answer_of_ask visited site hask', hc]
    subst hanswer
    have hc₁ := seenThrough_ask w visited site hask
    have hc₁' : w.collection.seenThrough c₁' = w.collection.seenThrough c₁ :=
      (seenThrough_ask w visited site hask').trans (hc.trans hc₁.symm)
    rcases answer' with why | ⟨target, content⟩
    · rw [fillSites_refused hask] at h
      obtain ⟨out', h', rfl⟩ := Option.map_eq_some_iff.mp h
      obtain ⟨c'', hrest, hc''⟩ := ih h' hc₁'
      refine ⟨c'', ?_, hc''.trans hc₁⟩
      rw [fillSites_refused hask', hrest]
      rfl
    · rw [fillSites_granted hask] at h
      obtain ⟨inner, hinner, h⟩ := Option.bind_eq_some_iff.mp h
      obtain ⟨out', h', rfl⟩ := Option.map_eq_some_iff.mp h
      obtain ⟨c₂', hinner', hc₂'⟩ := hbring _ _ _ _ hinner c₁' hc₁'
      have hc₂ := hseen _ _ _ _ hinner
      obtain ⟨c'', hrest, hc''⟩ := ih h' (hc₂'.trans hc₂.symm)
      refine ⟨c'', ?_, hc''.trans (hc₂.trans hc₁)⟩
      rw [fillSites_granted hask', hinner', Option.bind_some, hrest]
      rfl

/-- **A weaving does not depend on the cache** but for what is seen through it. -/
theorem weave?_congr (hfind : w.Finds found) {t : Text} {source : DocumentId}
    {visited : List DocumentId} {c c' : Cache} {out : Woven × Cache}
    (h : w.weave? t source visited c = some out)
    (hc : w.collection.seenThrough c' = w.collection.seenThrough c) :
    ∃ c'', w.weave? t source visited c' = some (out.1, c'') := by
  suffices hboth : w.collection.seenThrough out.2 = w.collection.seenThrough c ∧
      ∀ c', w.collection.seenThrough c' = w.collection.seenThrough c →
        ∃ c'', w.weave? t source visited c' = some (out.1, c'') from hboth.2 c' hc
  refine w.weave?_induct (P := fun t source visited c out =>
    w.collection.seenThrough out.2 = w.collection.seenThrough c ∧
      ∀ c', w.collection.seenThrough c' = w.collection.seenThrough c →
        ∃ c'', w.weave? t source visited c' = some (out.1, c'')) ?_ h
  intro bring ih t source visited c out h
  have hfound := (hfind t source visited).seen
  refine ⟨(seenThrough_fillSites (fun _ _ _ _ h => (ih _ _ _ _ _ h).1) h).trans (hfound c),
    fun c' hc => ?_⟩
  have hsites : (w.find t source visited c').1 = (w.find t source visited c).1 := by
    rw [(hfind t source visited).result, (hfind t source visited).result, hc]
  have hcongr := @fillSites_congr σ w
    (fun content target => bring content target (target :: visited))
    (fun content target => w.weave? content target (target :: visited))
  obtain ⟨c'', hfill, -⟩ := hcongr
    (fun _ _ _ _ h => (ih _ _ _ _ _ h).1)
    (fun _ _ _ _ h c' hc' => by
      obtain ⟨hout, hall⟩ := ih _ _ _ _ _ h
      obtain ⟨c'', hweave⟩ := hall c' hc'
      exact ⟨c'', hweave, (seenThrough_weave? hfind hweave).trans hc'⟩) h
    ((hfound c').trans (hc.trans (hfound c).symm))
  refine ⟨c'', ?_⟩
  rw [weave?_eq, hsites, hfill]
  rfl

/-- What stands at a site in the end, unless it keeps its own text, and the warnings about it. -/
def filled (w : Weaver σ) (c : Cache) (source : DocumentId) (visited : List DocumentId) (site : σ) :
    Option Text × List Warning :=
  match w.answer visited site (w.collection.seenThrough c) with
  | .error why => w.without source site why
  | .ok (target, content) =>
    let inner := (w.weave content target (target :: visited) c).1
    (some (w.frame site inner.text), inner.warnings)

/-- A site that asks for nothing stands by itself. -/
theorem filled_of_asks_eq_none {c : Cache} {source : DocumentId} {visited : List DocumentId}
    {site : σ} (h : w.asks site = none) :
    w.filled c source visited site = w.without source site none := by
  unfold filled answer
  rw [h]

theorem weave_of_some {t : Text} {source : DocumentId} {visited : List DocumentId} {c : Cache}
    {out : Woven × Cache} (h : w.weave? t source visited c = some out) :
    w.weave t source visited c = out := by
  rw [weave, h, Option.getD_some]

/-- What fills the sites of a text, site by site. -/
theorem fillSites_filled (hfind : w.Finds found) {source : DocumentId} {visited : List DocumentId}
    {sites : List σ} {c c₀ : Cache} {out : List (Span × Text) × List Warning × Cache}
    (hc : w.collection.seenThrough c = w.collection.seenThrough c₀)
    (h : w.fillSites (fun content target => w.weave? content target (target :: visited)) source
      visited sites c = some out) :
    out.1 = sites.filterMap (fun site => (w.filled c₀ source visited site).1.map (w.span site, ·)) ∧
      out.2.1 = sites.flatMap (fun site => (w.filled c₀ source visited site).2) ∧
      ∀ site ∈ sites, ∀ target content,
        w.answer visited site (w.collection.seenThrough c₀) = .ok (target, content) →
          (w.weave? content target (target :: visited) c₀).isSome := by
  induction sites generalizing c out with
  | nil =>
    cases h
    simp
  | cons site rest ih =>
    rcases hask : w.ask visited site c with ⟨answer, c₁⟩
    have hc₁ := (seenThrough_ask w visited site hask).trans hc
    have hanswer := w.answer_of_ask visited site hask
    rw [hc] at hanswer
    rcases answer with why | ⟨target, content⟩
    · rw [fillSites_refused hask] at h
      obtain ⟨out', h', rfl⟩ := Option.map_eq_some_iff.mp h
      obtain ⟨hparts, hwarnings, hall⟩ := ih hc₁ h'
      have hfilled : w.filled c₀ source visited site = w.without source site why := by
        rw [filled, hanswer]
      refine ⟨?_, ?_, ?_⟩
      · rw [List.filterMap_cons, hfilled, hparts]
        cases (w.without source site why).1 <;> rfl
      · rw [List.flatMap_cons, hfilled, hwarnings]
      · intro other hother target content hok
        rcases List.mem_cons.mp hother with rfl | hother
        · rw [hanswer] at hok
          cases hok
        · exact hall other hother target content hok
    · rw [fillSites_granted hask] at h
      obtain ⟨inner, hinner, h⟩ := Option.bind_eq_some_iff.mp h
      obtain ⟨out', h', rfl⟩ := Option.map_eq_some_iff.mp h
      obtain ⟨hparts, hwarnings, hall⟩ := ih ((seenThrough_weave? hfind hinner).trans hc₁) h'
      obtain ⟨c'', hweave⟩ := weave?_congr hfind hinner hc₁.symm
      have hfilled : w.filled c₀ source visited site =
          (some (w.frame site inner.1.text), inner.1.warnings) := by
        rw [filled, hanswer]
        simp only [weave_of_some hweave]
      refine ⟨?_, ?_, ?_⟩
      · rw [List.filterMap_cons, hfilled, hparts]
        rfl
      · rw [List.flatMap_cons, hfilled, hwarnings]
      · intro other hother target' content' hok
        rcases List.mem_cons.mp hother with rfl | hother
        · rw [hanswer] at hok
          cases hok
          rw [hweave]
          rfl
        · exact hall other hother target' content' hok

/-- **A weaving that ends**: every site is filled by itself, and what is brought into a site is
woven by itself, which ends. -/
theorem weave_eq (hfind : w.Finds found) {t : Text} {source : DocumentId}
    {visited : List DocumentId} {c : Cache} (h : (w.weave? t source visited c).isSome) :
    (w.weave t source visited c).1 =
        ⟨t.splice ((found t source (w.collection.seenThrough c)).filterMap
          fun site => (w.filled c source visited site).1.map (w.span site, ·)),
        (found t source (w.collection.seenThrough c)).flatMap
          fun site => (w.filled c source visited site).2⟩ ∧
      ∀ site ∈ found t source (w.collection.seenThrough c), ∀ target content,
        w.answer visited site (w.collection.seenThrough c) = .ok (target, content) →
          (w.weave? content target (target :: visited) c).isSome := by
  obtain ⟨out, hout⟩ := Option.isSome_iff_exists.mp h
  have hrun := hout
  rw [weave?_eq] at hrun
  obtain ⟨filled, hfill, rfl⟩ := Option.map_eq_some_iff.mp hrun
  obtain ⟨hparts, hwarnings, hall⟩ :=
    fillSites_filled hfind ((hfind t source visited).seen c) hfill
  rw [(hfind t source visited).result] at hparts hwarnings hall
  refine ⟨?_, hall⟩
  rw [weave_of_some hout, hparts, hwarnings]

/-- What a site is granted is brought in when the sites are filled. -/
theorem exists_bring_of_fillSites {bring : Bringing}
    (hseen : ∀ t d c out, bring t d c = some out →
      w.collection.seenThrough out.2 = w.collection.seenThrough c)
    {source : DocumentId} {visited : List DocumentId} {sites : List σ} {c : Cache}
    {out : List (Span × Text) × List Warning × Cache}
    (h : w.fillSites bring source visited sites c = some out) {site : σ} (hsite : site ∈ sites)
    {target : DocumentId} {content : Text}
    (hok : w.answer visited site (w.collection.seenThrough c) = .ok (target, content)) :
    ∃ c₁ inner, bring content target c₁ = some inner ∧
      w.collection.seenThrough c₁ = w.collection.seenThrough c := by
  induction sites generalizing c out with
  | nil => cases hsite
  | cons first rest ih =>
    rcases hask : w.ask visited first c with ⟨answer, c₁⟩
    have hc₁ := seenThrough_ask w visited first hask
    rcases answer with why | ⟨target', content'⟩
    · rw [fillSites_refused hask] at h
      obtain ⟨out', h', rfl⟩ := Option.map_eq_some_iff.mp h
      rcases List.mem_cons.mp hsite with rfl | hsite
      · rw [w.answer_of_ask visited site hask] at hok
        cases hok
      · obtain ⟨c₂, inner, hinner, hc₂⟩ := ih h' hsite (hc₁ ▸ hok)
        exact ⟨c₂, inner, hinner, hc₂.trans hc₁⟩
    · rw [fillSites_granted hask] at h
      obtain ⟨inner, hinner, h⟩ := Option.bind_eq_some_iff.mp h
      obtain ⟨out', h', rfl⟩ := Option.map_eq_some_iff.mp h
      rcases List.mem_cons.mp hsite with rfl | hsite
      · rw [w.answer_of_ask visited site hask] at hok
        cases hok
        exact ⟨c₁, inner, hinner, hc₁⟩
      · have hc₂ := (hseen _ _ _ _ hinner).trans hc₁
        obtain ⟨c₃, inner', hinner', hc₃⟩ := ih h' hsite (hc₂ ▸ hok)
        exact ⟨c₃, inner', hinner', hc₃.trans hc₂⟩

/-- To show something of every weaving that ends, show it of a text when it holds of what is brought
into its sites. -/
theorem weave_induct (hfind : w.Finds found) {c : Cache}
    {P : Text → DocumentId → List DocumentId → Prop}
    (step : ∀ t source visited, (w.weave? t source visited c).isSome →
      (∀ site ∈ found t source (w.collection.seenThrough c), ∀ target content,
        w.answer visited site (w.collection.seenThrough c) = .ok (target, content) →
          P content target (target :: visited)) → P t source visited)
    {t : Text} {source : DocumentId} {visited : List DocumentId}
    (h : (w.weave? t source visited c).isSome) : P t source visited := by
  obtain ⟨out, hout⟩ := Option.isSome_iff_exists.mp h
  suffices hrun : w.collection.seenThrough out.2 = w.collection.seenThrough c ∧
      (w.collection.seenThrough c = w.collection.seenThrough c →
        (w.weave? t source visited c).isSome → P t source visited) from hrun.2 rfl h
  refine w.weave?_induct (P := fun t source visited c' out =>
    w.collection.seenThrough out.2 = w.collection.seenThrough c' ∧
      (w.collection.seenThrough c' = w.collection.seenThrough c →
        (w.weave? t source visited c).isSome → P t source visited)) ?_ hout
  intro bring ih t source visited c' out hfill
  have hfound := hfind t source visited
  refine ⟨(seenThrough_fillSites (fun _ _ _ _ h => (ih _ _ _ _ _ h).1) hfill).trans
    (hfound.seen c'), fun hc hends => ?_⟩
  refine step t source visited hends fun site hsite target content hok => ?_
  have hc' := (hfound.seen c').trans hc
  rw [← hc, ← hfound.result] at hsite
  obtain ⟨c₁, inner, hinner, hc₁⟩ := exists_bring_of_fillSites
    (fun _ _ _ _ h => (ih _ _ _ _ _ h).1) hfill hsite (hc' ▸ hok)
  refine (ih _ _ _ _ _ hinner).2 (hc₁.trans hc') ((weave_eq hfind hends).2 site ?_ _ _ hok)
  rwa [hfound.result, hc] at hsite

end

end NotePress.Weaver

namespace NotePress

theorem Resolver.finds_expander (r : Resolver) :
    r.expander.Finds fun t source g => (r.over g).sitesIn t source :=
  r.readsThrough_findEmbeds

theorem Lowering.finds_lowerer (l : Lowering) :
    l.lowerer.Finds fun t source g => (l.over g).sitesIn t source :=
  fun t source _ => l.readsThrough_scan t source

end NotePress
