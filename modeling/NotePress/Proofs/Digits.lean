import NotePress.Text.Basic
import NotePress.Text.Digit

/-!
# Digits read back

The digits that write a number are read as that number, and different numbers have different
digits. Digits and letters are found by their codes.
-/

namespace NotePress

/-- A number is written in ASCII digits. -/
theorem Text.isDigit_of_mem_ofNat {n : Nat} {c : Char} (h : c ∈ Text.ofNat n) : c.isDigit :=
  Nat.isDigit_of_mem_toDigits (by decide) (by decide) h

theorem toNat_of_isDigit {c : Char} (h : c.isDigit = true) : 48 ≤ c.toNat ∧ c.toNat ≤ 57 := by
  simpa [Char.isDigit, UInt32.le_iff_toNat_le] using h

/-- Digits are not blank. -/
theorem Text.isBlank_of_isDigit {c : Char} (h : c.isDigit = true) : isBlank c = false := by
  obtain ⟨hlow, hhigh⟩ := toNat_of_isDigit h
  exact isBlank_of_visible (by omega) (by omega)

/-- The codes of characters are in their order. -/
theorem toNat_of_between {c first last : Char} (h : first.val ≤ c.val ∧ c.val ≤ last.val) :
    first.toNat ≤ c.toNat ∧ c.toNat ≤ last.toNat :=
  h.imp UInt32.le_iff_toNat_le.mp UInt32.le_iff_toNat_le.mp

/-- ASCII digits and letters stand between the first digit and the last small letter. -/
theorem toNat_of_isAlphanum {c : Char} (h : c.isAlphanum = true) :
    48 ≤ c.toNat ∧ c.toNat ≤ 122 := by
  rcases Bool.or_eq_true_iff.mp h with halpha | hdigit
  · rcases Bool.or_eq_true_iff.mp halpha with hupper | hlower
    · have hbetween : 65 ≤ c.toNat ∧ c.toNat ≤ 90 :=
        @toNat_of_between c 'A' 'Z' (of_decide_eq_true hupper)
      omega
    · have hbetween : 97 ≤ c.toNat ∧ c.toNat ≤ 122 := @toNat_of_between c 'a' 'z'
        ((Bool.and_eq_true_iff.mp hlower).imp of_decide_eq_true of_decide_eq_true)
      omega
  · have hbetween := toNat_of_isDigit hdigit
    omega

theorem Text.ofNat_ne_nil (n : Nat) : Text.ofNat n ≠ [] := Nat.toDigits_ne_nil

/-- No zero leads the digits of a number, except for zero itself. -/
theorem Text.exists_ofNat (n : Nat) :
    ∃ c rest, ofNat n = c :: rest ∧ c.isDigit = true ∧ (c = '0' → n = 0 ∧ rest = []) := by
  induction n using Nat.strongRecOn with
  | ind n ih =>
    unfold ofNat
    rw [Nat.toDigits_eq_if (by decide)]
    split
    · rename_i hsmall
      have hdigit : ∀ k < 10, k.digitChar.isDigit = true ∧ (k.digitChar = '0' → k = 0) := by
        decide
      exact ⟨n.digitChar, [], rfl, (hdigit n hsmall).1, fun hc => ⟨(hdigit n hsmall).2 hc, rfl⟩⟩
    · obtain ⟨c, rest, hwritten, hc, hlead⟩ := ih (n / 10) (by omega)
      refine ⟨c, rest ++ [(n % 10).digitChar], ?_, hc, fun hc => ?_⟩
      · rw [show Nat.toDigits 10 (n / 10) = c :: rest from hwritten, List.cons_append]
      · have := (hlead hc).1
        omega

/-- ASCII digits are read as digits of a number in base ten. -/
theorem readNat?_of_isDigit {t : Text} (hne : t ≠ []) (h : ∀ c ∈ t, c.isDigit) :
    readNat? t = some (Nat.ofDigitChars 10 t 0) := by
  have hfold : ∀ (t : Text) (n : Nat), (∀ c ∈ t, c.isDigit) →
      t.foldl (fun acc c => acc.bind fun n =>
        if c.isDigit then some (n * 10 + (c.toNat - '0'.toNat)) else none) (some n) =
      some (Nat.ofDigitChars 10 t n) := by
    intro t
    induction t with
    | nil => exact fun _ _ => rfl
    | cons c rest ih =>
      intro n h
      rw [List.foldl_cons, Option.bind_some, if_pos (h c (List.mem_cons_self ..)),
        ih _ fun x hx => h x (List.mem_cons_of_mem _ hx), Nat.ofDigitChars_cons, Nat.mul_comm]
  unfold readNat?
  split
  · exact absurd rfl hne
  · exact hfold t 0 h

/-- **The digits of a number are read as the number.** -/
@[simp] theorem readNat?_ofNat (n : Nat) : readNat? (Text.ofNat n) = some n := by
  rw [readNat?_of_isDigit (Text.ofNat_ne_nil n) fun c => Text.isDigit_of_mem_ofNat]
  exact congrArg some Nat.ofDigitChars_ten_toDigits

theorem Text.ofNat_injective : Function.Injective Text.ofNat := fun m n h => by
  have hread := readNat?_ofNat m
  rw [h, readNat?_ofNat] at hread
  exact (Option.some.inj hread).symm

end NotePress
