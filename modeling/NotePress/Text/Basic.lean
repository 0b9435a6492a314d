import NotePress.Text.Blank

/-!
# Cutting and joining text

The few cuts that the rest of the library makes: at the first or last occurrence of a character,
at a literal opening or ending, into lines, and by replacing a literal. `lines` and `join` are
inverse on texts without a stray separator; `cutAt?` keeps all characters but the one it cuts at.
-/

namespace NotePress.Text

/-- Splits at the first occurrence of a character, which is dropped. -/
def cutAt? (sep : Char) : Text → Option (Text × Text)
  | [] => none
  | c :: cs =>
    if c = sep then some ([], cs)
    else (cutAt? sep cs).map fun p => (c :: p.1, p.2)

/-- Splits at the last occurrence of a character, which is dropped. -/
def cutAtLast? (sep : Char) : Text → Option (Text × Text)
  | [] => none
  | c :: cs =>
    match cutAtLast? sep cs with
    | some p => some (c :: p.1, p.2)
    | none => if c = sep then some ([], cs) else none

/-- What follows the last occurrence of a character; all of the text if there is none. -/
def afterLast (sep : Char) (t : Text) : Text :=
  match cutAtLast? sep t with
  | some (_, rest) => rest
  | none => t

/-- What stands in front of the last occurrence of a character; nothing if there is none. -/
def beforeLast (sep : Char) (t : Text) : Text :=
  match cutAtLast? sep t with
  | some (front, _) => front
  | none => []

/-- Drops a literal opening. -/
def dropOpening? (opening t : Text) : Option Text := opening.isPrefixOf? t

/-- Drops a literal ending. -/
def dropEnding? (ending t : Text) : Option Text := ending.isSuffixOf? t

/-- Whether the text opens with a literal. -/
def startsWith (t opening : Text) : Bool := opening.isPrefixOf t

/-- Whether the text ends with a literal. -/
def endsWith (t ending : Text) : Bool := ending.isSuffixOf t

/-- Whether a literal occurs somewhere in the text. -/
def occursIn (needle : Text) : Text → Bool
  | [] => needle.isEmpty
  | c :: cs => startsWith (c :: cs) needle || occursIn needle cs

/-- Replaces from left to right, skipping `skip` characters that a replacement already covers. -/
def replaceFrom (needle replacement : Text) : Nat → Text → Text
  | _, [] => []
  | skip + 1, _ :: cs => replaceFrom needle replacement skip cs
  | 0, c :: cs =>
    if startsWith (c :: cs) needle then
      replacement ++ replaceFrom needle replacement (needle.length - 1) cs
    else c :: replaceFrom needle replacement 0 cs

/-- Replaces every occurrence of a literal (not the empty one), from left to right. -/
def replace (needle replacement t : Text) : Text := replaceFrom needle replacement 0 t

/-- Joins pieces with a separator between them. -/
def join (sep : Text) (pieces : List Text) : Text := sep.intercalate pieces

/-- Joins lines with line feeds. -/
def unlines (lines : List Text) : Text := join ['\n'] lines

/-- The pieces between line feeds; a final line feed leaves an empty last piece. -/
def breakLines (t : Text) : List Text := t.splitOn '\n'

/-- Lowers the letters `A` to `Z` and nothing else. -/
def lowerAscii (t : Text) : Text := t.map Char.toLower

/-- Equality that ignores the case of the letters `A` to `Z`. -/
def sameAscii (a b : Text) : Bool := lowerAscii a = lowerAscii b

/-- The order of code points, place by place. -/
def lt (a b : Text) : Bool := decide (a < b)

/-- The decimal digits of a number, without a leading zero. -/
def ofNat (n : Nat) : Text := Nat.toDigits 10 n

/-- The decimal digits of an integer, behind a minus sign if it is negative. -/
def ofInt (n : Int) : Text := if n < 0 then '-' :: ofNat n.natAbs else ofNat n.natAbs

/-- The text between the two given positions. -/
def slice (t : Text) (start stop : Nat) : Text := (t.drop start).take (stop - start)

@[simp] theorem cutAt?_nil (sep : Char) : cutAt? sep [] = none := rfl

/-- Cutting at a character loses that character only. -/
theorem eq_of_cutAt? {sep : Char} {t a b : Text} (h : cutAt? sep t = some (a, b)) :
    t = a ++ sep :: b := by
  induction t generalizing a with
  | nil => simp at h
  | cons c cs ih =>
    unfold cutAt? at h
    split at h
    · rename_i hc
      simp only [Option.some.injEq, Prod.mk.injEq] at h
      obtain ⟨rfl, rfl⟩ := h
      simp [hc]
    · obtain ⟨⟨a', b'⟩, h', e⟩ := Option.map_eq_some_iff.1 h
      simp only [Prod.mk.injEq] at e
      obtain ⟨rfl, rfl⟩ := e
      simp [ih h']

/-- The part in front of the first separator has none. -/
theorem not_mem_of_cutAt? {sep : Char} {t a b : Text} (h : cutAt? sep t = some (a, b)) :
    sep ∉ a := by
  induction t generalizing a with
  | nil => simp at h
  | cons c cs ih =>
    unfold cutAt? at h
    split at h
    · simp only [Option.some.injEq, Prod.mk.injEq] at h
      obtain ⟨rfl, rfl⟩ := h
      simp
    · rename_i hc
      obtain ⟨⟨a', b'⟩, h', e⟩ := Option.map_eq_some_iff.1 h
      simp only [Prod.mk.injEq] at e
      obtain ⟨rfl, rfl⟩ := e
      simp [ih h', Ne.symm hc]

end NotePress.Text
