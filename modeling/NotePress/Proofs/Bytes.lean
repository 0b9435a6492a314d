import NotePress.Text.Utf8

/-!
# Bytes of a text

A text that is kept as bytes is cut at offsets. An offset can be cut at if it is the length of a
beginning of the text, and falls inside of a character or behind the end otherwise
(`Text.cutAtByte?_eq_some_iff`). An ASCII character is one byte, and its byte is in no other
character (`Text.encodeChar_cases`).
-/

namespace NotePress.Text

variable {t a b : Text} {n : Nat}

/-! ### Cuts -/

/-- Cuts a text at a byte offset, unless it is past the end or inside a character. -/
def cutAtByte? : Nat → Text → Option (Text × Text)
  | 0, t => some ([], t)
  | _ + 1, [] => none
  | n + 1, c :: rest =>
    if c.utf8Size ≤ n + 1 then
      (cutAtByte? (n + 1 - c.utf8Size) rest).map fun p => (c :: p.1, p.2)
    else none

theorem byteLength_eq_zero_iff : byteLength t = 0 ↔ t = [] := by
  cases t with
  | nil => simp
  | cons c rest =>
    have := c.utf8Size_pos
    simp only [byteLength_cons, reduceCtorEq, iff_false]
    omega

/-- An offset at which a text can be cut is the length of a beginning of it. -/
theorem cutAtByte?_eq_some_iff :
    cutAtByte? n t = some (a, b) ↔ t = a ++ b ∧ byteLength a = n := by
  induction t generalizing n a with
  | nil =>
    cases n with
    | zero =>
      simp only [cutAtByte?, Option.some.injEq, Prod.mk.injEq, byteLength_eq_zero_iff]
      constructor
      · rintro ⟨rfl, rfl⟩
        exact ⟨rfl, rfl⟩
      · rintro ⟨h, rfl⟩
        exact ⟨rfl, h⟩
    | succ n =>
      simp only [cutAtByte?, reduceCtorEq, false_iff]
      rintro ⟨h, hn⟩
      obtain ⟨rfl, -⟩ := List.append_eq_nil_iff.mp h.symm
      cases hn
  | cons c rest ih =>
    cases n with
    | zero =>
      simp only [cutAtByte?, Option.some.injEq, Prod.mk.injEq, byteLength_eq_zero_iff]
      constructor
      · rintro ⟨rfl, rfl⟩
        exact ⟨rfl, rfl⟩
      · rintro ⟨h, rfl⟩
        exact ⟨rfl, h⟩
    | succ n =>
      unfold cutAtByte?
      constructor
      · intro h
        split at h
        · rename_i hfits
          obtain ⟨⟨front, back⟩, hrest, heq⟩ := Option.map_eq_some_iff.mp h
          obtain ⟨rfl, rfl⟩ := Prod.mk.injEq .. ▸ heq
          obtain ⟨rfl, hlength⟩ := ih.mp hrest
          exact ⟨rfl, by rw [byteLength_cons, hlength]; omega⟩
        · cases h
      · rintro ⟨h, hlength⟩
        cases a with
        | nil => cases hlength
        | cons d front =>
          obtain ⟨rfl, rfl⟩ := List.cons.inj h
          rw [byteLength_cons] at hlength
          rw [if_pos (by omega), ih.mpr ⟨rfl, by omega⟩]
          rfl

/-! ### Characters -/

theorem toNat_toUInt8 {n : Nat} (h : n < 256) : n.toUInt8.toNat = n := by
  simp [Nat.toUInt8, UInt8.toNat_ofNat', Nat.mod_eq_of_lt h]

theorem length_encodeChar (c : Char) : (encodeChar c).length = c.utf8Size := by
  have hval : c.toNat = c.val.toNat := rfl
  unfold encodeChar
  simp only
  split
  · refine (Char.utf8Size_eq_one_iff.mpr ?_).symm
    simp only [UInt32.le_iff_toNat_le, UInt32.reduceToNat]
    omega
  · split
    · refine (Char.utf8Size_eq_two_iff.mpr ?_).symm
      simp only [UInt32.lt_iff_toNat_lt, UInt32.le_iff_toNat_le, UInt32.reduceToNat]
      omega
    · split
      · refine (Char.utf8Size_eq_three_iff.mpr ?_).symm
        simp only [UInt32.lt_iff_toNat_lt, UInt32.le_iff_toNat_le, UInt32.reduceToNat]
        omega
      · refine (Char.utf8Size_eq_four_iff.mpr ?_).symm
        simp only [UInt32.lt_iff_toNat_lt, UInt32.reduceToNat]
        omega

theorem encode_append (a b : Text) : encode (a ++ b) = encode a ++ encode b := List.flatMap_append

/-- The number of bytes is counted right. -/
theorem length_encode (t : Text) : (encode t).length = byteLength t := by
  induction t with
  | nil => rfl
  | cons c t ih =>
    rw [byteLength_cons, ← ih, ← length_encodeChar]
    exact List.length_append

theorem encodeChar_ne_nil (c : Char) : encodeChar c ≠ [] := by
  intro hnil
  have hlength := length_encodeChar c
  rw [hnil, List.length_nil] at hlength
  exact Nat.ne_of_lt c.utf8Size_pos hlength

/-- A character below `0x80` is one byte, and other characters have no byte below it. -/
theorem encodeChar_cases (c : Char) :
    (∃ b, encodeChar c = [b] ∧ b.toNat = c.toNat) ∨ ∀ b ∈ encodeChar c, 0x80 ≤ b.toNat := by
  have hlarge : ∀ a n : Nat, 0x80 ≤ a → a + n < 256 → 0x80 ≤ (a + n).toUInt8.toNat :=
    fun a n ha hn => by rw [toNat_toUInt8 hn]; omega
  have hbound : c.toNat < 0x110000 := by
    have hvalid : c.toNat < 0xD800 ∨ 0xDFFF < c.toNat ∧ c.toNat < 0x110000 := c.valid
    omega
  unfold encodeChar
  simp only
  split
  · rename_i h
    exact .inl ⟨_, rfl, toNat_toUInt8 (by omega)⟩
  · right
    split
    · simp only [List.forall_mem_cons]
      exact ⟨hlarge _ _ (by omega) (by omega), hlarge _ _ (by omega) (by omega), by simp⟩
    · split
      · simp only [List.forall_mem_cons]
        exact ⟨hlarge _ _ (by omega) (by omega), hlarge _ _ (by omega) (by omega),
          hlarge _ _ (by omega) (by omega), by simp⟩
      · simp only [List.forall_mem_cons]
        exact ⟨hlarge _ _ (by omega) (by omega), hlarge _ _ (by omega) (by omega),
          hlarge _ _ (by omega) (by omega), hlarge _ _ (by omega) (by omega), by simp⟩

end NotePress.Text
