import NotePress.CommandLine
import NotePress.Proofs.Digits
import NotePress.Proofs.Occurrences
import Mathlib.Data.List.Basic

/-!
# Command lines, read back

Whatever a word holds, what `quote` writes for it is read as that word again and as nothing else
(`CommandLine.wordsFrom_quote`): a word of plain characters is read character by character, and in
single quotes every character stands for itself, but a single quote, which is put outside of them
behind a backslash. The blank behind a written word ends it. So a command line is read as the
command and the arguments it was written for (`words_render`).
-/

namespace NotePress

namespace CommandLine

/-! ### Words of plain characters -/

/-- Plain characters are visible ASCII characters. -/
theorem toNat_of_isPlain {c : Char} (h : isPlain c) : 33 ≤ c.toNat ∧ c.toNat ≤ 122 := by
  rcases Bool.or_eq_true_iff.mp h with halnum | hmark
  · exact (toNat_of_isAlphanum halnum).imp_left (by omega)
  · have hmarks : "-_./=:,+%@".toList.all fun c => 33 ≤ c.toNat ∧ c.toNat ≤ 122 := by decide
    exact of_decide_eq_true (List.all_eq_true.mp hmarks c (of_decide_eq_true hmark))

theorem isBlank_of_isPlain {c : Char} (h : isPlain c) : isBlank c = false := by
  obtain ⟨hlow, hhigh⟩ := toNat_of_isPlain h
  exact isBlank_of_visible hlow (by omega)

theorem ne_of_isPlain {c x : Char} (h : isPlain c) (hx : isPlain x = false) : c ≠ x := by
  rintro rfl
  rw [hx] at h
  cases h

theorem wordsFrom_plain {t : Text} (hne : t ≠ []) (hplain : ∀ c ∈ t, isPlain c)
    (word : Option Text) (rest : Text) :
    wordsFrom .none word (t ++ rest) = wordsFrom .none (some (word.getD [] ++ t)) rest := by
  induction t generalizing word with
  | nil => exact absurd rfl hne
  | cons c cs ih =>
    have hc := hplain c (List.mem_cons_self ..)
    have hpush : wordsFrom .none word (c :: (cs ++ rest)) =
        wordsFrom .none (push word c) (cs ++ rest) := by
      simp [wordsFrom, ne_of_isPlain hc (x := '\\') (by decide),
        ne_of_isPlain hc (x := '"') (by decide), ne_of_isPlain hc (x := '\'') (by decide),
        isBlank_of_isPlain hc]
    rw [List.cons_append, hpush]
    cases cs with
    | nil => rfl
    | cons d ds =>
      rw [ih (List.cons_ne_nil _ _) fun x hx => hplain x (List.mem_cons_of_mem _ hx)]
      simp [push]

/-! ### Words in quotes -/

/-- In single quotes every character stands for itself. -/
theorem wordsFrom_single (w t rest : Text) :
    wordsFrom .single (some w)
        (Text.replace ['\''] ['\'', '\\', '\'', '\''] t ++ '\'' :: rest) =
      wordsFrom .none (some (w ++ t)) rest := by
  rw [Text.replace_singleton]
  induction t generalizing w with
  | nil => simp [wordsFrom]
  | cons c cs ih =>
    by_cases hc : c = '\''
    · simp [hc, wordsFrom, push, ih]
    · simp [hc, wordsFrom, push, ih]

theorem wordsFrom_quoted (t rest : Text) :
    wordsFrom .none none (quoted t ++ rest) = wordsFrom .none (some t) rest := by
  have hopen : ∀ u, wordsFrom .none none ('\'' :: u) = wordsFrom .single (some []) u := fun u => by
    simp [wordsFrom]
  rw [quoted, List.cons_append, List.cons_append, hopen, List.append_assoc, List.singleton_append]
  exact wordsFrom_single [] t rest

/-- **A written word is read as that word**, whatever follows. -/
theorem wordsFrom_quote (t rest : Text) :
    wordsFrom .none none (quote t ++ rest) = wordsFrom .none (some t) rest := by
  unfold quote
  split
  · rename_i h
    exact wordsFrom_plain h.1 (List.all_eq_true.mp h.2) none rest
  · exact wordsFrom_quoted t rest

/-! ### Lines -/

/-- A blank ends a word. -/
theorem wordsFrom_blank (t rest : Text) :
    wordsFrom .none (some t) (' ' :: rest) = t :: words rest := by
  simp [wordsFrom, words, show isBlank ' ' = true by decide]

theorem words_join (ts : List Text) : words (Text.join [' '] (ts.map quote)) = ts := by
  induction ts with
  | nil => rfl
  | cons t rest ih =>
    cases rest with
    | nil =>
      have h := wordsFrom_quote t []
      simpa [words, Text.join, wordsFrom] using h
    | cons u us =>
      have hjoin : Text.join [' '] ((t :: u :: us).map quote) =
          quote t ++ ' ' :: Text.join [' '] ((u :: us).map quote) := by
        simp [Text.join, List.intercalate]
      rw [hjoin, words, wordsFrom_quote, wordsFrom_blank, ih]

end CommandLine

/-- **A command line is read as what it was written for**: the command and then its arguments,
whatever characters they have. -/
theorem words_render (i : Invocation) :
    CommandLine.words (CommandLine.render i) = i.command :: i.arguments :=
  CommandLine.words_join (i.command :: i.arguments)

end NotePress
