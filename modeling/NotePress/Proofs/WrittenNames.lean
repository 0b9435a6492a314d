import NotePress.Proofs.FoldedReferences
import NotePress.Proofs.LowerCase
import NotePress.Proofs.NameMatches
import NotePress.Proofs.Occurrences

/-!
# Names as they are written

Which documents are found by a trailing part of their path, written as it stands, with or without
the ending of notes. The path and the name are lowered separately, and the ending is put behind the
name when it is lowered already. So a name without its ending is missed if it ends in a sigma that
ends a word: in the name the sigma is lowered to its final form, in the path it is not, since the
letters of the ending are behind it.

`written_name_found_iff` says that this is the only way to miss a document, and that it is missed
then unless it stands at the root, where it is found by its path.
-/

namespace NotePress

/-! ### Paths that end in a name -/

namespace EndsAt

variable {path r v w : Text}

theorem lower (h : EndsAt path r) : EndsAt path.lower r.lower := by
  rcases h with rfl | ⟨front, rfl⟩
  · exact .inl rfl
  · exact .inr ⟨front.lower, Text.lower_slash front r⟩

/-- What a path ends in is told by the number of its slashes. -/
theorem unique (h : EndsAt path v) (h' : EndsAt path w) (hcount : v.count '/' = w.count '/') :
    v = w := by
  have hshorter : ∀ {v w front : Text}, v = front ++ '/' :: w → v.count '/' ≠ w.count '/' := by
    rintro v w front rfl heq
    rw [List.count_append, List.count_cons_self] at heq
    omega
  rcases h with rfl | ⟨front, rfl⟩
  · rcases h' with rfl | ⟨front', heq⟩
    · rfl
    · exact absurd hcount (hshorter heq)
  · rcases h' with heq | ⟨front', heq⟩
    · exact absurd hcount.symm (hshorter heq.symm)
    · rcases List.append_eq_append_iff.mp heq with ⟨inner, -, hinner⟩ | ⟨inner, -, hinner⟩
      · cases inner with
        | nil => exact (List.cons.inj hinner).2
        | cons c inner => exact absurd hcount (hshorter (List.cons.inj hinner).2)
      · cases inner with
        | nil => exact (List.cons.inj hinner).2.symm
        | cons c inner => exact absurd hcount.symm (hshorter (List.cons.inj hinner).2)

end EndsAt

/-- **The ending of notes** is lowered to itself, and a sigma that ends a word in front of it does
not end it any more. -/
theorem lower_append_noteEnding_iff {r : Text} :
    Text.lower (r ++ noteEnding) = r.lower ++ noteEnding ↔ ¬EndsInSigma [] r :=
  lowerFrom_append_iff (by decide +kernel) (lowerFrom_eq_self (by simp [noteEnding]))

/-! ### References -/

/-- **A name as it may be written in a reference**: names between slashes, without blanks around
them all and without the marks that cut a reference. -/
structure IsWritten (r : Text) : Prop extends Path.Plain r where
  trimmed : r.trim = r
  no_bar : '|' ∉ r
  no_hash : '#' ∉ r
  no_caret : '^' ∉ r

namespace IsWritten

variable {r : Text} (h : IsWritten r)
include h

theorem ne_nil : r ≠ [] := by
  rintro rfl
  exact (h.names [] (by simp)).ne_nil rfl

/-- A written name is the target of its reference, which asks for a whole document. -/
theorem parse? : Reference.parse? r = some ⟨r, none, none, none, none⟩ := by
  have hcut : readTarget r = (r, none, none) := by
    unfold readTarget
    rw [Text.cutAt?_eq_none h.no_hash]
    simp only
    rw [Text.cutAt?_eq_none h.no_caret]
  unfold Reference.parse?
  rw [Text.cutAt?_eq_none h.no_bar]
  simp only
  rw [hcut]
  simp only
  rw [Text.unlessBlank?_of_trim h.trimmed h.ne_nil]
  rfl

/-- In a note at the root a written name is tried as it is and with the ending of notes. -/
theorem of_mem_idsFor {source id : DocumentId} (hsource : source.directory = [])
    (hid : id ∈ idsFor r source) : id = .ofPath r ∨ id = .ofPath (r ++ noteEnding) := by
  unfold idsFor linkDirectories at hid
  rw [h.trimmed, forwardSlashes_eq_self h.no_backslash] at hid
  simp only [h.ne_nil, if_false, hsource, or_true, if_true] at hid
  simpa [joinReference?_of_names h.names] using hid

theorem lower_ne_nil : r.lower ≠ [] := by
  intro hnil
  have hlength := length_lowerFrom [] r
  rw [show Text.lowerFrom [] r = [] from hnil] at hlength
  exact h.ne_nil (List.eq_nil_of_length_eq_zero (by simp at hlength; omega))

end IsWritten

/-! ### Found by name -/

variable {id : DocumentId} {r : Text}

/-- **A document goes by its name without the ending** just when the name does not end in a sigma
that ends a word. -/
theorem named_iff_not_endsInSigma (h : EndsAt id.path (r ++ noteEnding)) :
    id.Named r.lower ↔ ¬EndsInSigma [] r := by
  have hslashes : (r ++ noteEnding).count '/' = r.count '/' := by
    rw [List.count_append]
    rfl
  have hlowered : (r ++ noteEnding).lower.count '/' = r.lower.count '/' := by
    rw [Text.lower, Text.lower, count_slash_lowerFrom, count_slash_lowerFrom, hslashes]
  constructor
  · rintro (hname | hname)
    · -- the path goes on behind the name
      have hlength := congrArg List.length (h.lower.unique hname hlowered)
      rw [Text.lower, Text.lower, length_lowerFrom, length_lowerFrom, List.count_append,
        List.length_append] at hlength
      have : 0 < noteEnding.length := by decide
      omega
    · refine lower_append_noteEnding_iff.mp (h.lower.unique hname ?_)
      rw [hlowered, List.count_append]
      rfl
  · intro hnot
    refine .inr ?_
    rw [← lower_append_noteEnding_iff.mpr hnot]
    exact h.lower

namespace Resolver

variable {res : Resolver} {reference : Reference} {source : DocumentId}

theorem resolveExact?_eq_none_of_meaning (h : res.meaning reference source = none) :
    res.resolveExact? reference.target source = none := by
  unfold meaning at h
  split at h
  · cases h
  · assumption

/-- What is listed and goes by the name is found, if nothing else is. -/
theorem isSome_meaning (hlisted : id ∈ res.collection.list res.searchRoot)
    (hnamed : id.Named (DocumentId.ofPath reference.target).path.lower)
    (hne : (DocumentId.ofPath reference.target).path.lower ≠ []) :
    (res.meaning reference source).isSome := by
  rw [Option.isSome_iff_ne_none]
  intro hnone
  rw [meaning_of_missed (resolveExact?_eq_none_of_meaning hnone), if_neg hne,
    bestMatch?_eq_none_iff] at hnone
  exact hnone id hlisted hnamed

end Resolver

/-- A collection of one document, which is empty. -/
def MemoryVault.single (id : DocumentId) : MemoryVault := ⟨[(id, [])], []⟩

theorem MemoryVault.contains_single_iff {other : DocumentId} :
    (MemoryVault.single id).contains other = true ↔ other = id := by
  rw [contains_iff]
  simp [single]

/-- **Names as they are written.** A name is a trailing part of the path of a document, or such a
part without the ending of notes, and it can be written in a reference. It is the target of the
reference. In every collection in memory with this document, through every coherent cache and from
every note the reference means some document, exactly when the ending is in the name, the document
stands at the root, or the name does not end in a sigma that ends a word. -/
theorem written_name_found_iff (hr : IsWritten r)
    (hends : EndsAt id.path r ∨ EndsAt id.path (r ++ noteEnding)) :
    ∃ reference, Reference.parse? r = some reference ∧
      ((∀ (g : MemoryVault) (c : Cache) (source : DocumentId), g.contains id = true →
          c.Coherent g.toCollection →
            ((⟨g.toCollection, none⟩ : Resolver).resolve c reference source).1.isSome) ↔
        EndsAt id.path r ∨ id.path = r ++ noteEnding ∨ ¬EndsInSigma [] r) := by
  refine ⟨_, hr.parse?, fun hfound => ?_, fun hcases g c source hid hc => ?_⟩
  · by_contra hnot
    simp only [not_or, not_not] at hnot
    obtain ⟨hpath, hroot, hsigma⟩ := hnot
    have hended := hends.resolve_left hpath
    have hother : ∀ other, other = .ofPath r ∨ other = .ofPath (r ++ noteEnding) →
        (MemoryVault.single id).contains other = false := by
      intro other hother
      rw [Bool.eq_false_iff, ne_eq, MemoryVault.contains_single_iff]
      rintro rfl
      rcases hother with rfl | rfl
      · exact hpath (.inl hr.path_ofPath)
      · exact hroot hr.append_noteEnding.path_ofPath
    -- alone in its collection, the document is not found from a note at the root
    have hsome := hfound (.single id) .empty (.ofPath "main.md".toList)
      (MemoryVault.contains_single_iff.mpr rfl) (Cache.coherent_empty _)
    rw [Resolver.resolve_fst_of_coherent (Cache.coherent_empty _), Resolver.meaning_of_missed,
      hr.path_ofPath, if_neg hr.lower_ne_nil, Resolver.bestMatch?_eq_none_iff.mpr] at hsome
    · cases hsome
    · intro other hlisted
      obtain rfl := MemoryVault.contains_single_iff.mp (MemoryVault.mem_list_iff.mp hlisted).1
      exact fun hnamed => (named_iff_not_endsInSigma hended).mp hnamed hsigma
    · rw [Resolver.resolveExact?_eq_none_iff, hr.path_ofPath]
      refine ⟨List.find?_eq_none.mpr fun other hmem => ?_, hother _ (.inl rfl), hother _ (.inr rfl)⟩
      rw [hother other (hr.of_mem_idsFor (by decide +kernel) hmem)]
      exact Bool.false_ne_true
  · rw [Resolver.resolve_fst_of_coherent hc]
    have hlisted : id ∈ g.list none := MemoryVault.mem_list_iff.mpr ⟨hid, List.nil_prefix⟩
    have hbyName : id.Named r.lower → ((⟨g.toCollection, none⟩ : Resolver).meaning
        ⟨r, none, none, none, none⟩ source).isSome := by
      intro hnamed
      refine Resolver.isSome_meaning hlisted ?_ ?_
      · rwa [hr.path_ofPath]
      · rw [hr.path_ofPath]
        exact hr.lower_ne_nil
    rcases hcases with hpath | hroot | hnot
    · exact hbyName (.inl hpath.lower)
    · -- at the root it is found by its path
      rw [Option.isSome_iff_ne_none]
      intro hnone
      obtain ⟨-, -, hending⟩ := Resolver.resolveExact?_eq_none_iff.mp
        (Resolver.resolveExact?_eq_none_of_meaning hnone)
      rw [hr.path_ofPath, ← hroot, DocumentId.ofPath_path] at hending
      exact Bool.noConfusion (hending.symm.trans hid)
    · exact hbyName (hends.elim (fun hpath => .inl hpath.lower) fun hended =>
        (named_iff_not_endsInSigma hended).mpr hnot)

/-- A name in Greek capitals, without its ending. -/
theorem written_name_found_iff_capitals :
    let id := DocumentId.ofPath "x/ΟΔΟΣ.md".toList
    let r : Text := "ΟΔΟΣ".toList
    (IsWritten r ∧ (EndsAt id.path r ∨ EndsAt id.path (r ++ noteEnding))) ∧
      ∃ reference, Reference.parse? r = some reference ∧
        ((∀ (g : MemoryVault) (c : Cache) (source : DocumentId), g.contains id = true →
            c.Coherent g.toCollection →
              ((⟨g.toCollection, none⟩ : Resolver).resolve c reference source).1.isSome) ↔
          EndsAt id.path r ∨ id.path = r ++ noteEnding ∨ ¬EndsInSigma [] r) := by
  intro id r
  have hr : IsWritten r := ⟨⟨by decide +kernel, by decide +kernel⟩, by decide +kernel,
    by decide +kernel, by decide +kernel, by decide +kernel⟩
  have hends : EndsAt id.path r ∨ EndsAt id.path (r ++ noteEnding) :=
    .inr (.inr ⟨['x'], by decide +kernel⟩)
  exact ⟨⟨hr, hends⟩, written_name_found_iff hr hends⟩

/-- **A name that is written as it is on file can be missed.** The note `x/ΟΔΟΣ.md` is not found as
`ΟΔΟΣ`, though it is found with the ending, and with a small sigma in place of the capital one. -/
theorem capitals_missed :
    let id := DocumentId.ofPath "x/ΟΔΟΣ.md".toList
    let g : MemoryVault := .ofDocuments [(id, [])] []
    let meant (name : String) : Option (Option DocumentId) :=
      (Reference.parse? name.toList).map fun reference =>
        ((⟨g.toCollection, none⟩ : Resolver).resolve .empty reference (.ofPath "main.md".toList)).1
    (IsWritten "ΟΔΟΣ".toList ∧ id.path = 'x' :: '/' :: ("ΟΔΟΣ".toList ++ noteEnding) ∧
        g.contains id = true) ∧
      meant "ΟΔΟΣ" = some none ∧ meant "ΟΔΟΣ.md" = some (some id) ∧
        meant "ΟΔΟσ" = some (some id) := by
  intro id g meant
  have hr : IsWritten "ΟΔΟΣ".toList := ⟨⟨by decide +kernel, by decide +kernel⟩, by decide +kernel,
    by decide +kernel, by decide +kernel, by decide +kernel⟩
  exact ⟨⟨hr, by decide +kernel, by decide +kernel⟩, by decide +kernel, by decide +kernel,
    by decide +kernel⟩

end NotePress
