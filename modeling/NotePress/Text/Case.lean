import NotePress.Text.CaseTable

/-!
# Lower case

Lower-casing maps each character by the table, with two rules beside it: `İ` becomes `i` with a
combining dot, and a capital sigma at the end of a word becomes the final form `ς`. A sigma ends a
word when, skipping case-ignorable characters, a cased character stands before it and none after.
-/

namespace NotePress

/-- The lower-case partner of a character by the table; the character itself if it has none. -/
def lowerChar (c : Char) : Char :=
  let n := c.toNat
  match lowerRuns.find? fun r => r.1 ≤ n && n ≤ r.2.1 && (n - r.1) % r.2.2.1 = 0 with
  | some r => Char.ofNat (r.2.2.2 + (n - r.1))
  | none => c

/-- Whether the first character that is not case-ignorable is cased. -/
def casedNext (t : Text) : Bool :=
  match t.dropWhile fun c => inRanges caseIgnorableRanges c.toNat with
  | [] => false
  | c :: _ => inRanges casedRanges c.toNat

/-- Lower-cases the rest of a text, given the characters in front of it in reverse. -/
def Text.lowerFrom (before : Text) : Text → Text
  | [] => []
  | c :: cs =>
    let rest := lowerFrom (c :: before) cs
    if c = 'Σ' then (if casedNext before && !casedNext cs then 'ς' else 'σ') :: rest
    else if c = 'İ' then 'i' :: '\u0307' :: rest
    else lowerChar c :: rest

/-- The lower-case form of a text. -/
def Text.lower (t : Text) : Text := lowerFrom [] t

end NotePress
