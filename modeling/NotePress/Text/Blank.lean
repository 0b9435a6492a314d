/-!
# Blank characters

Text here is a list of characters, so that every law about it is a law about lists. A character
is blank when it has the Unicode property `White_Space`; trimming, splitting into words and every
test for "an empty line" use this one class.
-/

namespace NotePress

/-- Text is a list of Unicode scalar values. -/
abbrev Text := List Char

/-- The inclusive ranges of the property `White_Space`. -/
def blankRanges : List (Nat × Nat) :=
  [(0x9, 0xD), (0x20, 0x20), (0x85, 0x85), (0xA0, 0xA0), (0x1680, 0x1680), (0x2000, 0x200A),
   (0x2028, 0x2029), (0x202F, 0x202F), (0x205F, 0x205F), (0x3000, 0x3000)]

/-- Whether a code point lies in one of the ranges. -/
def inRanges (ranges : List (Nat × Nat)) (n : Nat) : Bool :=
  ranges.any fun r => r.1 ≤ n && n ≤ r.2

/-- Whether a character is blank. -/
def isBlank (c : Char) : Bool := inRanges blankRanges c.toNat

/-- A space or a tab, the only blanks that stand inside a line's prefix. -/
def isSpaceTab (c : Char) : Bool := c = ' ' || c = '\t'

/-- Visible ASCII characters are not blank. -/
theorem isBlank_of_visible {c : Char} (h : 33 ≤ c.toNat) (h' : c.toNat ≤ 126) :
    isBlank c = false := by
  have hout : ∀ r ∈ blankRanges, r.2 < 33 ∨ 126 < r.1 := by decide
  rw [isBlank, inRanges, List.any_eq_false]
  intro r hr
  have := hout r hr
  simp only [Bool.and_eq_true, decide_eq_true_eq]
  omega

namespace Text

/-- Drops the longest tail whose characters all satisfy `p`. -/
def dropTail (p : Char → Bool) (t : Text) : Text := (t.reverse.dropWhile p).reverse

/-- Drops leading blanks. -/
def trimStart (t : Text) : Text := t.dropWhile isBlank

/-- Drops trailing blanks. -/
def trimEnd (t : Text) : Text := dropTail isBlank t

/-- Drops blanks on both sides. -/
def trim (t : Text) : Text := trimEnd (trimStart t)

/-- Whether nothing but blanks is left. -/
def allBlank (t : Text) : Bool := t.all isBlank

/-- The trimmed text, if anything is left of it. -/
def unlessBlank? (t : Text) : Option Text :=
  match trim t with
  | [] => none
  | c :: cs => some (c :: cs)

/-- A text without blanks on both sides is left as it is. -/
theorem unlessBlank?_of_trim {t : Text} (htrim : t.trim = t) (hne : t ≠ []) :
    t.unlessBlank? = some t := by
  obtain ⟨c, rest, rfl⟩ := List.exists_cons_of_ne_nil hne
  unfold unlessBlank?
  rw [htrim]

/-- Drops line feeds and carriage returns at the end. -/
def dropFinalBreaks (t : Text) : Text := dropTail (fun c => c = '\n' || c = '\r') t

/-- The maximal runs of characters that are not blank, in order. -/
def words (t : Text) : List Text := (t.splitOnP isBlank).filter (· ≠ [])

end Text

end NotePress
