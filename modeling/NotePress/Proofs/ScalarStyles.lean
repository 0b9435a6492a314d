import NotePress.Proofs.BlockTokens
import NotePress.Proofs.YamlNodes

/-!
# The styles of scalars

A text is written plain, in quotes or as a literal block, and is read back in whatever style that is
(`writtenAs_text`). A key that stands on one line has no break in any of its styles, and is short
enough to be told from a value (`writtenAs_key`): no character has more than four times its bytes
when it is escaped. Truth values and numbers may stand without quotes, so what is written of a
scalar is read back as its token (`writtenAs_scalar`).
-/

namespace NotePress.Yaml

variable {isKey : Bool} {n : Nat} {t : Text} {d : Data}

/-! ### Texts in their styles -/

theorem plainAllowed_of_styleOf (h : styleOf isKey t = .plain) :
    t ≠ [] ∧ plainAllowed t = true := by
  have hadmits := admits_styleOf isKey t
  rw [h] at hadmits
  refine ⟨?_, hadmits.2⟩
  rintro rfl
  cases hadmits.1

theorem mem_singleQuotedBody {broken : Bool} {y : Char} (hy : y ∈ singleQuotedBody n broken t) :
    y = ' ' ∨ y = '\'' ∨ y ∈ t := by
  induction t generalizing broken with
  | nil =>
    unfold singleQuotedBody at hy
    split at hy
    · exact .inl (List.eq_of_mem_replicate hy)
    · cases hy
  | cons x t ih =>
    have hlater : ∀ {broken}, y ∈ singleQuotedBody n broken t → y = ' ' ∨ y = '\'' ∨ y ∈ x :: t :=
      fun hy => (ih hy).imp_right (.imp_right (List.mem_cons_of_mem x))
    by_cases hx : isBreak x = true
    · simp only [singleQuotedBody, hx, if_true] at hy
      rcases List.mem_cons.mp hy with rfl | hy
      · exact .inr (.inr (List.mem_cons_self ..))
      · exact hlater hy
    · rw [singleQuotedBody_cons hx, List.mem_append, List.mem_append] at hy
      rcases hy with hy | hy | hy
      · split at hy
        · exact .inl (List.eq_of_mem_replicate hy)
        · cases hy
      · unfold doubleQuote at hy
        split at hy
        · exact .inr (.inl (by simpa using hy))
        · rw [List.mem_singleton.mp hy]
          exact .inr (.inr (List.mem_cons_self ..))
      · exact hlater hy

theorem isAllowed_of_mem_singleQuotedBody (ht : SingleQuoted t) {broken : Bool} :
    ∀ y ∈ singleQuotedBody n broken t, isAllowed y = true := fun y hy => by
  rcases mem_singleQuotedBody hy with rfl | rfl | hy
  · rfl
  · rfl
  · exact isAllowed_of_isShown (ht.shown y hy)

theorem isAllowed_of_mem_flatMap_escapeChar : ∀ y ∈ t.flatMap escapeChar, isAllowed y = true :=
  fun y hy => by
    obtain ⟨x, -, hy⟩ := List.mem_flatMap.mp hy
    exact (isAllowed_of_mem_escape hy).1

/-- **Every text is read back** in the style in which it is written. -/
theorem writtenAs_text (isKey : Bool) (n : Nat) (t : Text) :
    WrittenAs (n + 1) (writeText isKey (n + 1) t) (.scalar t (styleOf isKey t = .plain)) := by
  have hadmits := admits_styleOf isKey t
  cases hstyle : styleOf isKey t <;> rw [hstyle] at hadmits <;> simp only [writeText, hstyle]
  case plain =>
    obtain ⟨hne, hplain⟩ := plainAllowed_of_styleOf hstyle
    exact .plain hne hplain
  case singleQuoted =>
    exact @WrittenAs.quoted _ true _ _ (quoted_single hadmits n).1
      (isAllowed_of_mem_singleQuotedBody hadmits)
  case doubleQuoted =>
    exact @WrittenAs.quoted _ false _ _ (quoted_double t) isAllowed_of_mem_flatMap_escapeChar
  case literal => exact .literal hadmits.2.1 hadmits.2.2

/-! ### Keys -/

theorem byteLength_flatMap_le {f : Char → Text} {k : Nat}
    (h : ∀ x, Text.byteLength (f x) ≤ k * x.utf8Size) (t : Text) :
    Text.byteLength (t.flatMap f) ≤ k * Text.byteLength t := by
  induction t with
  | nil => exact Nat.zero_le _
  | cons x t ih =>
    rw [List.flatMap_cons, Text.byteLength_append, Text.byteLength_cons, Nat.mul_add]
    exact Nat.add_le_add (h x) ih

theorem byteLength_upperHex (digits n : Nat) : Text.byteLength (upperHex digits n) = digits := by
  have hsize : ∀ d < 16, (Nat.digitChar d).toUpper.utf8Size = 1 := by decide
  induction digits generalizing n with
  | zero => rfl
  | succ k ih =>
    rw [upperHex, Text.byteLength_append, ih]
    exact congrArg (k + ·) (hsize _ (Nat.mod_lt _ (by decide)))

/-- A number with more digits is one of a character with more bytes. -/
theorem byteLength_escapeChar_le (x : Char) : Text.byteLength (escapeChar x) ≤ 4 * x.utf8Size := by
  have hpos := x.utf8Size_pos
  have hsize : x.utf8Size = if x.toNat ≤ 0x7F then 1 else if x.toNat ≤ 0x7FF then 2
      else if x.toNat ≤ 0xFFFF then 3 else 4 := by
    simp only [Char.utf8Size, UInt32.le_iff_toNat_le]
    rfl
  by_cases hnamed : ∃ mark, (x, mark) ∈ namedEscapes
  · obtain ⟨mark, hmem⟩ := hnamed
    have hmark : ∀ p ∈ namedEscapes, p.2.utf8Size = 1 := by decide
    have hone : mark.utf8Size = 1 := hmark _ hmem
    rw [(readEscape?_of_mem_named hmem).1, Text.byteLength_cons, Text.byteLength_cons, hone]
    show 1 + (1 + 0) ≤ _
    omega
  · rcases escapeChar_of_not_mem_named (not_exists.mp hnamed) with
      ⟨hescape, -⟩ | ⟨mark, digits, hmark, -, hwide, hescape⟩
    · rw [hescape, Text.byteLength_cons, Text.byteLength_nil]
      omega
    · have hone : ∀ p ∈ [('x', 2), ('u', 4), ('U', 8)], p.1.utf8Size = 1 := by decide
      rw [hescape, Text.byteLength_cons, Text.byteLength_cons, byteLength_upperHex, hone _ hmark]
      show 1 + (1 + digits) ≤ _
      simp only [List.mem_cons, Prod.mk.injEq, List.not_mem_nil, or_false] at hmark
      rcases hmark with ⟨-, rfl⟩ | ⟨-, rfl⟩ | ⟨-, rfl⟩
      · omega
      · have := hwide (by decide)
        split_ifs at hsize <;> omega
      · have := hwide (by decide)
        split_ifs at hsize <;> omega

/-- Without breaks, single quotes do not indent. -/
theorem singleQuotedBody_eq_flatMap (ht : ∀ x ∈ t, isBreak x = false) (n : Nat) :
    singleQuotedBody n false t = t.flatMap doubleQuote := by
  induction t with
  | nil => rfl
  | cons x t ih =>
    obtain ⟨hx, ht⟩ := List.forall_mem_cons.mp ht
    rw [singleQuotedBody_cons (by simp [hx]), ih ht]
    rfl

theorem isBreak_of_mem_doubleQuote {x y : Char} (hx : isBreak x = false) (hy : y ∈ doubleQuote x) :
    isBreak y = false := by
  unfold doubleQuote at hy
  split at hy
  · obtain rfl : y = '\'' := by simpa using hy
    rfl
  · rwa [List.mem_singleton.mp hy]

theorem byteLength_doubleQuote_le (x : Char) :
    Text.byteLength (doubleQuote x) ≤ 4 * x.utf8Size := by
  unfold doubleQuote
  split
  · rename_i hquote
    rw [hquote]
    decide
  · rw [Text.byteLength_cons, Text.byteLength_nil]
    omega

/-- A key in quotes stands on one line. -/
theorem quotedKey {single : Bool} {escape : Char → Text} (hshort : Text.byteLength t ≤ keyLimit)
    (hbreak : ∀ x ∈ t, ∀ y ∈ escape x, isBreak y = false)
    (hlength : ∀ x, Text.byteLength (escape x) ≤ 4 * x.utf8Size) :
    (quoteOf single :: (t.flatMap escape ++ [quoteOf single])).any isBreak = false ∧
      Text.byteLength (quoteOf single :: (t.flatMap escape ++ [quoteOf single])) ≤ 1024 := by
  have hone : (quoteOf single).utf8Size = 1 := by cases single <;> rfl
  have hmark : isBreak (quoteOf single) = false := (isGap_quoteOf single).2
  have hbytes := byteLength_flatMap_le hlength t
  unfold keyLimit at hshort
  refine ⟨?_, ?_⟩
  · rw [List.any_eq_false]
    intro y hy
    simp only [List.mem_cons, List.mem_append, List.mem_flatMap, List.not_mem_nil, or_false] at hy
    rcases hy with rfl | ⟨x, hx, hy⟩ | rfl
    · simp [hmark]
    · simp [hbreak x hx y hy]
    · simp [hmark]
  · simp only [Text.byteLength_cons, Text.byteLength_append, Text.byteLength_nil, hone]
    omega

/-- **A key that stands on one line is read back**, whatever the indentation is. -/
theorem writtenAs_key (h : isSimpleKey (.text t) = true) (n : Nat) :
    WrittenAs n (writeText true n t) (.scalar t (styleOf true t = .plain)) ∧
      (writeText true n t).any isBreak = false ∧ Text.byteLength (writeText true n t) ≤ 1024 := by
  simp only [isSimpleKey, Bool.and_eq_true, Bool.not_eq_true', decide_eq_true_eq] at h
  obtain ⟨hline, hshort⟩ := h
  have hbreak : ∀ x ∈ t, isBreak x = false := fun x hx => by
    simpa using List.any_eq_false.mp hline x hx
  have hadmits := admits_styleOf true t
  cases hstyle : styleOf true t <;> rw [hstyle] at hadmits <;> simp only [writeText, hstyle]
  case plain =>
    obtain ⟨hne, hplain⟩ := plainAllowed_of_styleOf hstyle
    exact ⟨.plain hne hplain, hline, hshort.trans (by decide)⟩
  case singleQuoted =>
    have hquoted : Quoted true false (t.flatMap doubleQuote) t := quoted_flatMap rfl fun x hx =>
      standsFor_doubleQuote (hadmits.shown x hx) (hbreak x hx)
    have hallowed := @isAllowed_of_mem_singleQuotedBody n t hadmits false
    unfold writeSingleQuoted
    rw [singleQuotedBody_eq_flatMap hbreak] at hallowed ⊢
    exact ⟨@WrittenAs.quoted _ true _ _ hquoted hallowed, @quotedKey _ true _ hshort
      (fun x hx y => isBreak_of_mem_doubleQuote (hbreak x hx)) byteLength_doubleQuote_le⟩
  case doubleQuoted =>
    exact ⟨@WrittenAs.quoted _ false _ _ (quoted_double t) isAllowed_of_mem_flatMap_escapeChar,
      @quotedKey _ false _ hshort (fun _ _ _ hy => (isAllowed_of_mem_escape hy).2)
        byteLength_escapeChar_le⟩
  case literal => cases hadmits.1

/-! ### Scalars -/

theorem isShown_of_isBareChar {x : Char} (hx : isBareChar x = true) : isShown x = true := by
  have hrange := toNat_of_isBareChar hx
  simp only [isShown, Bool.or_eq_true, Bool.and_eq_true, decide_eq_true_eq]
  omega

theorem marksLater_of_bare {w : Text} (hw : ∀ x ∈ w, isBareChar x = true) (gapBefore : Bool) :
    marksLater gapBefore w = false := by
  induction w generalizing gapBefore with
  | nil => rfl
  | cons x w ih =>
    obtain ⟨hx, hw⟩ := List.forall_mem_cons.mp hw
    have hmem := @not_mem_of_isBareChar x hx [':', '#'] (by decide)
    simp only [List.mem_cons, List.not_mem_nil, or_false, not_or] at hmem
    simp [marksLater, hmem, ih hw]

/-- A letter or a digit is not among marks. -/
theorem contains_of_isAlphanum {x : Char} (hx : x.isAlphanum = true) {marks : List Char}
    (h : marks.any Char.isAlphanum = false) : marks.contains x = false := by
  rw [Bool.eq_false_iff]
  exact fun hmem => List.any_eq_false.mp h x (List.contains_iff_mem.mp hmem) hx

/-- A bare word is no mark, and begins with none. -/
theorem hasMarks_of_bare {w : Text} (hw : Bare w) : hasMarks w = false := by
  obtain ⟨x, rest, rfl, hbegin⟩ := hw.begins
  obtain ⟨-, hrest⟩ := List.forall_mem_cons.mp hw.chars
  have hlater := marksLater_of_bare hrest (isSpaceTab x || isBreak x)
  rcases hbegin with halnum | ⟨rfl, y, more, rfl, halnum⟩
  · have hdash := contains_of_isAlphanum halnum
      (show ['-', '.'].any Char.isAlphanum = false by decide)
    have hmark := contains_of_isAlphanum halnum
      (show "#,[]\x7b\x7d&*!|>'\"%@\x60".toList.any Char.isAlphanum = false by decide)
    have hsign := contains_of_isAlphanum halnum
      (show "?:-".toList.any Char.isAlphanum = false by decide)
    have hfirst : marksFirst x rest = false := by
      rw [marksFirst, hmark, hsign]
      rfl
    simp only [List.contains_cons, List.contains_nil, Bool.or_false, Bool.or_eq_false_iff,
      beq_eq_false_iff_ne] at hdash
    simp [hasMarks, Text.startsWith, List.isPrefixOf, hfirst, hlater, Ne.symm hdash.1,
      Ne.symm hdash.2]
  · have hne : y ≠ '-' := by
      rintro rfl
      cases halnum
    have hy := hrest y (List.mem_cons_self ..)
    have hfirst : marksFirst '-' (y :: more) = false := by
      simp [marksFirst, gapNext, isSpaceTab_of_isBareChar hy, isBreak_of_isBareChar hy]
    simp [hasMarks, Text.startsWith, List.isPrefixOf, hfirst, hlater, Ne.symm hne]

/-- A bare word may stand without quotes. -/
theorem plainAllowed_of_bare {w : Text} (hw : Bare w) : plainAllowed w = true := by
  have hspace : ∀ y ∈ w, (decide (y = ' ')) = false := fun y hy => by
    simpa using @not_mem_of_isBareChar y (hw.chars y hy) [' '] (by decide)
  have hline : w.any isBreak = false := List.any_eq_false.mpr fun y hy => by
    simp [isBreak_of_isBareChar (hw.chars y hy)]
  have hshown : w.all isShown = true := List.all_eq_true.mpr fun y hy =>
    isShown_of_isBareChar (hw.chars y hy)
  have hhead : (w.head?.any fun c => c = ' ') = false := by
    cases w with
    | nil => rfl
    | cons y w => exact hspace y (List.mem_cons_self ..)
  have hlast : (w.getLast?.any fun c => c = ' ') = false := by
    cases hw : w.getLast? with
    | none => rfl
    | some y => exact hspace y (List.mem_of_getLast? hw)
  unfold plainAllowed
  rw [hhead, hlast, hline, hshown, hasMarks_of_bare hw]
  rfl

/-- **A number in YAML may stand without quotes.** -/
theorem plainAllowed_write (f : BinaryFormat) (x : Floating) :
    plainAllowed (NumberLayout.yaml.write f x) = true := by
  cases x with
  | nan => exact show plainAllowed ".nan".toList = true by decide
  | infinite negative =>
    cases negative with
    | true => exact show plainAllowed "-.inf".toList = true by decide
    | false => exact show plainAllowed ".inf".toList = true by decide
  | finite negative m e =>
    obtain ⟨n, hn, -, hwritten, -⟩ :=
      Numeral.exists_numeral_write Numeral.isDecimal_yaml f negative m e
    rw [hwritten]
    exact plainAllowed_of_bare (hn.bare negative)

theorem WrittenAs.ne_nil {w : Text} {token : Token} (h : WrittenAs n w token) : w ≠ [] := by
  cases h with
  | plain hne _ => exact hne
  | quoted => exact List.cons_ne_nil _ _
  | literal => exact List.cons_ne_nil _ _

theorem writtenAs_bare {w : Text} (hw : Bare w) : WrittenAs n w (.scalar w true) := by
  refine .plain ?_ (plainAllowed_of_bare hw)
  obtain ⟨x, rest, rfl, -⟩ := hw.begins
  exact List.cons_ne_nil x rest

/-- **What is written of a scalar is read back as its token.** -/
theorem writtenAs_scalar (h : IsLeaf d) (n : Nat) :
    WrittenAs (n + 2) (writeScalar false (n + 2) d) (scalarToken false d) := by
  cases d with
  | null => exact writtenAs_bare bare_null
  | bool b => exact writtenAs_bare (Json.bare_bool b)
  | text t => exact writtenAs_text false (n + 1) t
  | float f x =>
    have hplain := plainAllowed_write f x
    refine .plain (fun hnil => ?_) hplain
    rw [show writeScalar false (n + 2) (.float f x) = NumberLayout.yaml.write f x from rfl] at hnil
    obtain ⟨-, hread⟩ := h
    rw [hnil] at hread
    cases hread
  | int n => cases h
  | list items => cases h
  | map entries => cases h
  | tagged tag inner => cases h

/-! ### What is written -/

theorem mem_literalBody {broken : Bool} {y : Char} (hy : y ∈ literalBody n broken t) :
    y = ' ' ∨ y ∈ t := by
  induction t generalizing broken with
  | nil => cases hy
  | cons x t ih =>
    have hlater : ∀ {broken}, y ∈ x :: literalBody n broken t → y = ' ' ∨ y ∈ x :: t := fun hy => by
      rcases List.mem_cons.mp hy with rfl | hy
      · exact .inr (List.mem_cons_self ..)
      · exact (ih hy).imp_right (List.mem_cons_of_mem x)
    unfold literalBody at hy
    split at hy
    · exact hlater hy
    · rcases List.mem_append.mp hy with hy | hy
      · split at hy
        · exact .inl (List.eq_of_mem_replicate hy)
        · cases hy
      · exact hlater hy

theorem mem_literalMarks {y : Char} (hy : y ∈ literalMarks t) : y ∈ ['2', '-', '+'] := by
  unfold literalMarks at hy
  rcases List.mem_append.mp hy with hy | hy
  · split at hy
    · simp_all
    · cases hy
  · repeat' split at hy
    all_goals simp_all

/-- What is written of a scalar may stand in a text. -/
theorem WrittenAs.isAllowed {w : Text} {token : Token} (h : WrittenAs n w token) :
    ∀ y ∈ w, isAllowed y = true := by
  have hquote : ∀ single, Yaml.isAllowed (quoteOf single) = true := by decide
  intro y hy
  cases h with
  | plain hne hplain =>
    obtain ⟨x, u, rfl⟩ := List.exists_cons_of_ne_nil hne
    exact isAllowed_of_isShown ((plainBegin_of_plainAllowed hplain).rest.shown y hy)
  | @quoted single v u hquoted hallowed =>
    simp only [List.mem_cons, List.mem_append, List.not_mem_nil, or_false] at hy
    rcases hy with rfl | hy | rfl
    · exact hquote single
    · exact hallowed y hy
    · exact hquote single
  | @literal u hne hshown =>
    have hmarks : ∀ y ∈ ['2', '-', '+'], Yaml.isAllowed y = true :=
      List.all_eq_true.mp (by decide)
    unfold writeLiteral at hy
    simp only [List.cons_append, List.mem_cons, List.mem_append] at hy
    rcases hy with rfl | hy | rfl | hy
    · rfl
    · exact hmarks y (mem_literalMarks hy)
    · rfl
    · rcases mem_literalBody hy with rfl | hy
      · rfl
      · exact isAllowed_of_isShown (hshown y hy)

theorem WrittenAs.isLead {w : Text} {token : Token} (h : WrittenAs n w token) :
    ∃ x tail, w = x :: tail ∧ isLead x = true := by
  cases h with
  | plain hne hplain =>
    obtain ⟨x, u, rfl⟩ := List.exists_cons_of_ne_nil hne
    exact ⟨x, u, rfl, isLead_of_plainBegin (plainBegin_of_plainAllowed hplain)⟩
  | @quoted single v u hquoted hallowed =>
    exact ⟨_, _, rfl, by cases single <;> rfl⟩
  | literal => exact ⟨_, _, rfl, rfl⟩

end NotePress.Yaml
