import Mathlib.Data.List.TakeWhile
import NotePress.Note.Embed
import NotePress.Proofs.Splicing

/-!
# Hits of a scan

Where hits stand: in order, apart, and each where its recogniser found it. Both are inductions on
the walk, with the rest of the last hit as `skip`. Embeds and note images stand on one line and
begin with a `!`, behind the quote prefix that they may open a line with (`Recogniser.Marked`).
-/

namespace NotePress.Text

variable {α : Type} {recognise : Recogniser α}

/-- A hit lies in the part of the text that is walked. -/
theorem le_start_of_mem_scanFrom {before : Option Char} {skip pos : Nat} {t : Text} {h : Hit α}
    (hmem : h ∈ scanFrom recognise before skip pos t) :
    pos + skip ≤ h.span.start ∧ h.span.start < pos + t.length := by
  induction t generalizing before skip pos with
  | nil => simp [scanFrom] at hmem
  | cons c cs ih =>
    rw [List.length_cons]
    cases skip with
    | succ skip =>
      have := ih hmem
      omega
    | zero =>
      rw [scanFrom] at hmem
      split at hmem
      · rcases List.mem_cons.mp hmem with rfl | hmem
        · simp
        · have := ih hmem
          omega
      · have := ih hmem
        omega

/-- Hits come in order and apart. -/
theorem scanFrom_pairwise (recognise : Recogniser α) (before : Option Char) (skip pos : Nat)
    (t : Text) : (scanFrom recognise before skip pos t).Pairwise fun a b =>
      a.span.start < b.span.start ∧ a.span.stop ≤ b.span.start := by
  induction t generalizing before skip pos with
  | nil => exact .nil
  | cons c cs ih =>
    cases skip with
    | succ skip => exact ih _ _ _
    | zero =>
      rw [scanFrom]
      split
      · refine .cons (fun b hb => ?_) (ih _ _ _)
        have := le_start_of_mem_scanFrom hb
        show pos < b.span.start ∧ pos + _ ≤ b.span.start
        omega
      · exact ih _ _ _

theorem scan_pairwise (recognise : Recogniser α) (t : Text) :
    (t.scan recognise).Pairwise fun a b =>
      a.span.start < b.span.start ∧ a.span.stop ≤ b.span.start :=
  scanFrom_pairwise recognise none 0 0 t

/-- No hit comes twice. -/
theorem scan_nodup (recognise : Recogniser α) (t : Text) : (t.scan recognise).Nodup :=
  (scan_pairwise recognise t).imp fun {a b} hlt hab => by
    subst hab
    exact absurd hlt.1 (Nat.lt_irrefl _)

/-- A hit of a walk that goes on behind `front` is what its recogniser makes of the character in
front of its position and the text behind. -/
theorem recognised_of_mem_scanFrom (front : Text) {t : Text} {skip : Nat} {h : Hit α}
    (hmem : h ∈ scanFrom recognise front.getLast? skip front.length t) :
    ∃ n, recognise ((front ++ t).take h.span.start).getLast? ((front ++ t).drop h.span.start) =
      some (n, h.value) ∧ h.span.stop = h.span.start + n := by
  induction t generalizing front skip with
  | nil => simp [scanFrom] at hmem
  | cons c cs ih =>
    have hbehind : ∀ {skip}, h ∈ scanFrom recognise (some c) skip (front.length + 1) cs →
        ∃ n, recognise ((front ++ c :: cs).take h.span.start).getLast?
            ((front ++ c :: cs).drop h.span.start) = some (n, h.value) ∧
          h.span.stop = h.span.start + n := by
      intro skip hmem
      have ih := ih (front ++ [c]) (by simpa using hmem)
      rwa [List.append_assoc, List.singleton_append] at ih
    cases skip with
    | succ skip => exact hbehind hmem
    | zero =>
      rw [scanFrom] at hmem
      split at hmem
      · rename_i n a hfound
        rcases List.mem_cons.mp hmem with rfl | hmem
        · refine ⟨n, ?_, rfl⟩
          rw [List.take_left, List.drop_left]
          exact hfound
        · exact hbehind hmem
      · exact hbehind hmem

/-- A hit is what its recogniser makes of the text behind its position. -/
theorem recognised_of_mem_scan {t : Text} {h : Hit α} (hmem : h ∈ t.scan recognise) :
    ∃ n, recognise (t.take h.span.start).getLast? (t.drop h.span.start) = some (n, h.value) ∧
      h.span.stop = h.span.start + n :=
  recognised_of_mem_scanFrom [] hmem

end Text

/-! ### Embeds and images -/

/-- What is recognised is a `!` with what follows on the same line, behind a quote prefix. -/
def Recogniser.Marked {α : Type} (recognise : Recogniser α) : Prop :=
  ∀ before t n a, recognise before t = some (n, a) →
    ∃ middle after, t = quoteAt before t ++ '!' :: (middle ++ after) ∧ '\n' ∉ middle ∧
      n = (quoteAt before t).length + 1 + middle.length

theorem not_mem_quoteAt {before : Option Char} {t : Text} {c : Char} (hc : isQuoteChar c = false) :
    c ∉ quoteAt before t := by
  unfold quoteAt
  simp only
  split
  · exact fun hmem => by simpa [hc] using List.mem_takeWhile_imp hmem
  · exact List.not_mem_nil

/-- A quote prefix stands in front. -/
theorem quoteAt_append_drop (before : Option Char) (t : Text) :
    quoteAt before t ++ t.drop (quoteAt before t).length = t := by
  unfold quoteAt
  simp only
  split
  · exact List.prefix_iff_eq_append.mp (List.takeWhile_prefix _)
  · rfl

/-- What stands behind the quote prefix, with its length. -/
theorem eq_quoteAt_append {before : Option Char} {t middle after : Text}
    (h : t.drop (quoteAt before t).length = '!' :: (middle ++ after)) :
    t = quoteAt before t ++ '!' :: (middle ++ after) ∧
      t.length - after.length = (quoteAt before t).length + 1 + middle.length := by
  have hsplit : t = quoteAt before t ++ '!' :: (middle ++ after) := by
    rw [← h, quoteAt_append_drop]
  refine ⟨hsplit, ?_⟩
  have hlength := congrArg List.length hsplit
  rw [List.length_append, List.length_cons, List.length_append] at hlength
  omega

/-- A text cut at the first character outside a class. -/
theorem eq_append_of_takeWhile {p : Char → Bool} {t inner after : Text}
    (hinner : t.takeWhile p = inner) (hafter : t.dropWhile p = after) :
    t = inner ++ after ∧ ∀ c ∈ inner, p c = true := by
  subst hinner hafter
  exact ⟨List.takeWhile_append_dropWhile.symm, fun c hc => List.mem_takeWhile_imp hc⟩

/-- What may stand between the brackets of an embed. -/
def IsInner (inner : Text) : Prop :=
  inner ≠ [] ∧ ∀ c ∈ inner, c ≠ '[' ∧ c ≠ ']' ∧ c ≠ '\n'

theorem IsInner.no_break {inner : Text} (h : IsInner inner) : '\n' ∉ inner :=
  fun hmem => (h.2 _ hmem).2.2 rfl

/-- An embed without its quote prefix. -/
def brackets (inner : Text) : Text := '!' :: '[' :: '[' :: (inner ++ [']', ']'])

/-- Brackets are read off the front of a text. -/
theorem readBrackets?_eq_some_iff {t inner after : Text} :
    readBrackets? t = some (inner, after) ↔ t = brackets inner ++ after ∧ IsInner inner := by
  constructor
  · intro h
    unfold readBrackets? at h
    split at h
    · rename_i rest
      simp only at h
      split at h
      · rename_i c cs after' hinner hafter
        cases h
        obtain ⟨hsplit, hall⟩ := eq_append_of_takeWhile hinner hafter
        refine ⟨by rw [hsplit]; simp [brackets], List.cons_ne_nil _ _, fun c hc => ?_⟩
        simpa using hall c hc
      · cases h
    · cases h
  · rintro ⟨rfl, hne, hall⟩
    have hinner : ∀ c ∈ inner, decide (c ≠ '[' ∧ c ≠ ']' ∧ c ≠ '\n') = true :=
      fun c hc => by simpa using hall c hc
    have hafter : brackets inner ++ after =
        '!' :: '[' :: '[' :: (inner ++ ']' :: ']' :: after) := by
      simp [brackets]
    rw [hafter]
    unfold readBrackets?
    simp only
    rw [List.takeWhile_append_of_pos hinner, List.dropWhile_append_of_pos hinner]
    cases inner with
    | nil => exact absurd rfl hne
    | cons c cs => simp

/-- An attribute block is read off the front of a text. -/
theorem readBraces?_eq_some {t inner after : Text} (h : readBraces? t = some (inner, after)) :
    t = '\x7b' :: (inner ++ '\x7d' :: after) ∧ '\n' ∉ inner := by
  unfold readBraces? at h
  split at h
  · rename_i rest
    simp only at h
    split at h
    · rename_i after' hafter
      cases h
      obtain ⟨hsplit, hall⟩ := eq_append_of_takeWhile rfl hafter
      exact ⟨by rw [← hsplit], fun hmem => by simpa using hall _ hmem⟩
    · cases h
  · cases h

/-- A destination is read off the front of a text. -/
theorem readDestination?_eq_some {t target after : Text}
    (h : readDestination? t = some (target, after)) :
    t = target ++ ')' :: after ∧ '\n' ∉ target := by
  unfold readDestination? at h
  simp only at h
  split at h
  · rename_i found hfound
    cases h
    split at hfound
    · rename_i rest
      split at hfound
      · rename_i c cs after' hinner hafter
        cases hfound
        obtain ⟨hsplit, hall⟩ := eq_append_of_takeWhile hinner hafter
        refine ⟨by rw [hsplit]; simp, fun hmem => ?_⟩
        have hmem : '\n' ∈ c :: cs := by simpa using hmem
        simpa using hall _ hmem
      · cases hfound
    · cases hfound
  · split at h
    · rename_i c cs after' hinner hafter
      cases h
      obtain ⟨hsplit, hall⟩ := eq_append_of_takeWhile hinner hafter
      exact ⟨hsplit, fun hmem => absurd (hall _ hmem) (by decide)⟩
    · cases h

/-- A note image is read off the front of a text. -/
theorem readImage?_eq_some {t alt target after : Text}
    (h : readImage? t = some (alt, target, after)) :
    ∃ middle, t = '!' :: (middle ++ after) ∧ '\n' ∉ middle := by
  unfold readImage? at h
  split at h
  · rename_i rest
    simp only at h
    split at h
    · rename_i behind hbehind
      obtain ⟨⟨target', after'⟩, hread, e⟩ := Option.map_eq_some_iff.mp h
      cases e
      obtain ⟨hdestination, hbreak⟩ := readDestination?_eq_some hread
      obtain ⟨inner, hsplit, hfree⟩ : ∃ inner, rest = inner ++ ']' :: '(' :: behind ∧
          '\n' ∉ inner :=
        have hcut := eq_append_of_takeWhile rfl hbehind
        ⟨_, hcut.1, fun hmem => by simpa using hcut.2 _ hmem⟩
      refine ⟨'[' :: (inner ++ ']' :: '(' :: (target' ++ [')'])), ?_, by simp [hbreak, hfree]⟩
      rw [hsplit, hdestination]
      simp
    · cases h
  · cases h

theorem marked_recogniseEmbed : Recogniser.Marked recogniseEmbed := by
  intro before t n e h
  obtain ⟨⟨inner, after⟩, hread, he⟩ := Option.map_eq_some_iff.mp h
  cases he
  obtain ⟨hsplit, hinner⟩ := readBrackets?_eq_some_iff.mp hread
  have hbreak := hinner.no_break
  have hmiddle : t.drop (quoteAt before t).length =
      '!' :: (('[' :: '[' :: (inner ++ [']', ']'])) ++ after) := by
    rw [hsplit]
    rfl
  obtain ⟨hfront, hlength⟩ := eq_quoteAt_append hmiddle
  exact ⟨_, after, hfront, by simp [hbreak], hlength⟩

theorem marked_recogniseAttributedEmbed : Recogniser.Marked recogniseAttributedEmbed := by
  intro before t n e h
  obtain ⟨⟨inner, after⟩, hread, he⟩ := Option.map_eq_some_iff.mp h
  obtain ⟨hsplit, hinner⟩ := readBrackets?_eq_some_iff.mp hread
  have hbreak := hinner.no_break
  simp only at he
  split at he
  · rename_i block after' hbraces
    cases he
    obtain ⟨hblock, hbreak'⟩ := readBraces?_eq_some hbraces
    have hmiddle : t.drop (quoteAt before t).length =
        '!' :: (('[' :: '[' :: (inner ++ ']' :: ']' :: '\x7b' :: (block ++ ['\x7d']))) ++
          after') := by
      rw [hsplit, hblock]
      simp [brackets]
    obtain ⟨hfront, hlength⟩ := eq_quoteAt_append hmiddle
    exact ⟨_, after', hfront, by simp [hbreak, hbreak'], hlength⟩
  · cases he
    have hmiddle : t.drop (quoteAt before t).length =
        '!' :: (('[' :: '[' :: (inner ++ [']', ']'])) ++ after) := by
      rw [hsplit]
      rfl
    obtain ⟨hfront, hlength⟩ := eq_quoteAt_append hmiddle
    exact ⟨_, after, hfront, by simp [hbreak], hlength⟩

theorem marked_recogniseImage : Recogniser.Marked recogniseImage := by
  intro before t n e h
  obtain ⟨⟨alt, target, after⟩, hread, he⟩ := Option.map_eq_some_iff.mp h
  cases he
  obtain ⟨middle, hsplit, hbreak⟩ := readImage?_eq_some hread
  obtain ⟨hfront, hlength⟩ := eq_quoteAt_append hsplit
  exact ⟨middle, after, hfront, hbreak, hlength⟩

/-! ### Hits of embeds and images -/

section

variable {α : Type} {recognise : Recogniser α}

/-- A hit is not empty, lies in the text and stands on one line. -/
theorem Recogniser.Marked.of_mem_scan (hmarked : recognise.Marked) {t : Text} {h : Hit α}
    (hmem : h ∈ t.scan recognise) :
    h.span.start < h.span.stop ∧ h.span.stop ≤ t.length ∧
      '\n' ∉ t.slice h.span.start h.span.stop := by
  obtain ⟨n, hfound, hstop⟩ := Text.recognised_of_mem_scan hmem
  have hstart := (Text.le_start_of_mem_scanFrom hmem).2
  obtain ⟨middle, after, hsplit, hbreak, hn⟩ := hmarked _ _ _ _ hfound
  have hlength := congrArg List.length hsplit
  rw [List.length_drop, List.length_append, List.length_cons, List.length_append] at hlength
  refine ⟨by omega, by omega, ?_⟩
  unfold Text.slice
  rw [hsplit, show h.span.stop - h.span.start = (quoteAt (t.take h.span.start).getLast? (t.drop h.span.start)).length +
    (middle.length + 1) by omega, List.take_length_add_append, List.take_succ_cons, List.take_left]
  have hquote : '\n' ∉ quoteAt (t.take h.span.start).getLast? (t.drop h.span.start) := not_mem_quoteAt rfl
  simp [hbreak, hquote]

end

/-- An embed as it is written. -/
def Embed.text (e : Embed) : Text := e.quote ++ brackets e.inner

theorem Embed.text_ne_nil (e : Embed) : e.text ≠ [] := by simp [text, brackets]

/-- An embed stands where it is found, on one line. -/
theorem hasAt_of_mem_scan_embed {t : Text} {h : Hit Embed} (hmem : h ∈ t.scan recogniseEmbed) :
    t.HasAt h.span.start h.value.text ∧ h.span.stop = h.span.start + h.value.text.length ∧
      '\n' ∉ h.value.text ∧ IsInner h.value.inner := by
  obtain ⟨n, hfound, hstop⟩ := Text.recognised_of_mem_scan hmem
  obtain ⟨⟨inner, after⟩, hread, he⟩ := Option.map_eq_some_iff.mp hfound
  obtain ⟨hsplit, hinner⟩ := readBrackets?_eq_some_iff.mp hread
  obtain ⟨hn, he⟩ := Prod.mk.inj he
  have hfront := quoteAt_append_drop (t.take h.span.start).getLast? (t.drop h.span.start)
  rw [hsplit, ← List.append_assoc] at hfront
  have hlength := congrArg List.length hfront
  rw [List.length_append] at hlength
  have hquote : '\n' ∉ quoteAt (t.take h.span.start).getLast? (t.drop h.span.start) := not_mem_quoteAt rfl
  rw [← he]
  refine ⟨⟨after, hfront⟩, ?_, ?_, hinner⟩
  · show _ = _ + (quoteAt (t.take h.span.start).getLast? (t.drop h.span.start) ++ brackets inner).length
    simp only at hn
    omega
  · simp [Embed.text, brackets, hinner.no_break, hquote]

/-- The brackets of an embed with attributes stand behind its quote prefix. -/
theorem hasAt_of_mem_scan_attributedEmbed {t : Text} {h : Hit (Embed × Option Text)}
    (hmem : h ∈ t.scan recogniseAttributedEmbed) :
    t.HasAt (h.span.start + h.value.1.quote.length) (brackets h.value.1.inner) ∧
      IsInner h.value.1.inner := by
  obtain ⟨n, hfound, -⟩ := Text.recognised_of_mem_scan hmem
  obtain ⟨⟨inner, after⟩, hread, he⟩ := Option.map_eq_some_iff.mp hfound
  obtain ⟨hsplit, hinner⟩ := readBrackets?_eq_some_iff.mp hread
  have hvalue : h.value.1 = ⟨quoteAt (t.take h.span.start).getLast? (t.drop h.span.start), inner⟩ := by
    simp only at he
    split at he <;> exact (congrArg Prod.fst (Prod.mk.inj he).2).symm
  rw [hvalue]
  refine ⟨?_, hinner⟩
  unfold Text.HasAt
  rw [← List.drop_drop, hsplit]
  exact List.prefix_append _ _

/-- An embed as it is written, with its attribute block. -/
def attributedText (e : Embed × Option Text) : Text :=
  e.1.text ++ match e.2 with
    | some block => '\x7b' :: (block ++ ['\x7d'])
    | none => []

theorem attributedText_ne_nil (e : Embed × Option Text) : attributedText e ≠ [] :=
  List.append_ne_nil_of_left_ne_nil e.1.text_ne_nil _

/-- An embed with attributes stands where it is found, on one line. -/
theorem hasAt_attributedText {t : Text} {h : Hit (Embed × Option Text)}
    (hmem : h ∈ t.scan recogniseAttributedEmbed) :
    t.HasAt h.span.start (attributedText h.value) ∧
      h.span.stop = h.span.start + (attributedText h.value).length ∧
        '\n' ∉ attributedText h.value ∧ IsInner h.value.1.inner := by
  obtain ⟨n, hfound, hstop⟩ := Text.recognised_of_mem_scan hmem
  obtain ⟨⟨inner, after⟩, hread, he⟩ := Option.map_eq_some_iff.mp hfound
  obtain ⟨hsplit, hinner⟩ := readBrackets?_eq_some_iff.mp hread
  have hfront := quoteAt_append_drop (t.take h.span.start).getLast? (t.drop h.span.start)
  have hquote : '\n' ∉ quoteAt (t.take h.span.start).getLast? (t.drop h.span.start) := not_mem_quoteAt rfl
  rw [hsplit] at hfront
  have hlength := congrArg List.length hfront
  simp only at he
  split at he
  · rename_i block after' hbraces
    obtain ⟨hblock, hbreak⟩ := readBraces?_eq_some hbraces
    obtain ⟨hn, he⟩ := Prod.mk.inj he
    rw [hblock] at hfront hlength
    rw [← he]
    refine ⟨⟨after', Eq.trans ?_ hfront⟩, ?_, ?_, hinner⟩
    · simp [attributedText, Embed.text]
    · simp only [attributedText, Embed.text, List.length_append, List.length_cons,
        List.length_nil] at hlength ⊢
      omega
    · simp [attributedText, Embed.text, brackets, hquote, hinner.no_break, hbreak]
  · obtain ⟨hn, he⟩ := Prod.mk.inj he
    rw [← he]
    refine ⟨⟨after, Eq.trans ?_ hfront⟩, ?_, ?_, hinner⟩
    · simp [attributedText, Embed.text]
    · simp only [attributedText, Embed.text, List.length_append, List.append_nil] at hlength ⊢
      omega
    · simp [attributedText, Embed.text, brackets, hquote, hinner.no_break]

/-- The inside of brackets is told by where they stand. -/
theorem brackets_inj {t : Text} {p : Nat} {inner inner' : Text} (h : t.HasAt p (brackets inner))
    (h' : t.HasAt p (brackets inner')) (hinner : IsInner inner) (hinner' : IsInner inner') :
    inner = inner' := by
  obtain ⟨after, hafter⟩ := h
  obtain ⟨after', hafter'⟩ := h'
  have hread := readBrackets?_eq_some_iff.mpr ⟨hafter.symm, hinner⟩
  rw [readBrackets?_eq_some_iff.mpr ⟨hafter'.symm, hinner'⟩] at hread
  cases hread
  rfl

end NotePress
