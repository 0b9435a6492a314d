import NotePress.Text.Basic

/-!
# Patterns

A pattern matches whole texts: `*` stands for any text, `?` for any octet, and a set in square
brackets for one of its members. What is quoted stands for itself.
-/

namespace NotePress.Shell

/-- An octet of an expanded word, and whether it was quoted. -/
structure Letter where
  char : Char
  quoted : Bool
  deriving DecidableEq, Repr

/-- What a set has for members. -/
inductive Members where
  | one (c : Char)
  | range (first last : Char)
  /-- A kind of octets, such as `digit`. -/
  | kind (name : Text)
  deriving DecidableEq, Repr

/-- A part of a pattern. -/
inductive PatternPart where
  | anyText
  | anyChar
  | char (c : Char)
  | set (negated : Bool) (members : List Members)
  deriving DecidableEq, Repr

abbrev Pattern := List PatternPart

/-- Whether an octet is of a kind. -/
def isOfKind (name : Text) (c : Char) : Bool :=
  let isPunctuation := '!' ≤ c && c ≤ '~' && !c.isAlphanum
  match String.ofList name with
  | "alpha" => c.isAlpha
  | "digit" => c.isDigit
  | "alnum" => c.isAlphanum
  | "upper" => c.isUpper
  | "lower" => c.isLower
  | "space" => c = ' ' || ('\t' ≤ c && c ≤ '\r')
  | "blank" => c = ' ' || c = '\t'
  | "punct" => isPunctuation
  | "print" => ' ' ≤ c && c ≤ '~'
  | "graph" => '!' ≤ c && c ≤ '~'
  | "cntrl" => c < ' ' || c = '\x7f'
  | "xdigit" => c.isDigit || ('a' ≤ c && c ≤ 'f') || ('A' ≤ c && c ≤ 'F')
  | _ => false

namespace Members

/-- Whether an octet is among the members. -/
def has (m : Members) (c : Char) : Bool :=
  match m with
  | .one x => x = c
  | .range first last => first ≤ c && c ≤ last
  | .kind name => isOfKind name c

end Members

/-- Whether a part of a pattern matches an octet. -/
def PatternPart.admits (p : PatternPart) (c : Char) : Bool :=
  match p with
  | .anyText => false
  | .anyChar => true
  | .char x => x = c
  | .set negated members => (members.any fun m => m.has c) != negated

/-- The name of a kind between colons, at the beginning of some letters, and what follows it. -/
def readKind? (t : List Letter) : Option (Text × List Letter) :=
  let name := t.takeWhile fun l => l.char.isAlpha
  match t.drop name.length with
  | ⟨':', false⟩ :: ⟨']', false⟩ :: rest => some (name.map (·.char), rest)
  | _ => none

/-- Reads the members of a set up to its bracket; the first one may be a bracket itself. -/
def readMembers? : Nat → (first : Bool) → List Letter → Option (List Members × List Letter)
  | 0, _, _ => none
  | _ + 1, _, [] => none
  | fuel + 1, first, l :: rest =>
    if l = ⟨']', false⟩ ∧ !first then some ([], rest)
    else
      let kind? : Option (Text × List Letter) := match rest with
        | ⟨':', false⟩ :: t => if l = ⟨'[', false⟩ then readKind? t else none
        | _ => none
      match kind? with
      | some (name, rest) => (readMembers? fuel false rest).map fun p => (.kind name :: p.1, p.2)
      | none =>
        let (c, rest) := match l, rest with
          | ⟨'\\', false⟩, x :: rest => (x.char, rest)
          | l, rest => (l.char, rest)
        let range? : Option (Char × List Letter) := match rest with
          | ⟨'-', _⟩ :: ⟨'\\', false⟩ :: d :: rest => some (d.char, rest)
          | ⟨'-', _⟩ :: d :: rest => if d = ⟨']', false⟩ then none else some (d.char, rest)
          | _ => none
        match range? with
        | some (d, rest) => (readMembers? fuel false rest).map fun p => (.range c d :: p.1, p.2)
        | none => (readMembers? fuel false rest).map fun p => (.one c :: p.1, p.2)

/-- The pattern of some letters; `fuel` bounds their number. -/
def patternFrom : Nat → List Letter → Pattern
  | 0, _ => []
  | _ + 1, [] => []
  | fuel + 1, l :: rest =>
    if l.quoted then .char l.char :: patternFrom fuel rest
    else if l.char = '*' then .anyText :: patternFrom fuel rest
    else if l.char = '?' then .anyChar :: patternFrom fuel rest
    else if l.char = '\\' then
      match rest with
      | x :: rest => .char x.char :: patternFrom fuel rest
      | [] => [.char '\\']
    else if l.char = '[' then
      let (negated, inner) := match rest with
        | ⟨'!', false⟩ :: inner => (true, inner)
        | inner => (false, inner)
      match readMembers? (inner.length + 1) true inner with
      | some (members, rest) => .set negated members :: patternFrom fuel rest
      | none => .char '[' :: patternFrom fuel rest
    else .char l.char :: patternFrom fuel rest

/-- The pattern of some letters. -/
def patternOf (letters : List Letter) : Pattern := patternFrom (letters.length + 1) letters

/-- Whether a pattern has parts that do not stand for themselves. -/
def Pattern.isOpen (p : Pattern) : Bool :=
  p.any fun part => match part with
    | .char _ => false
    | _ => true

/-- Whether a text matches a pattern. -/
def matchesAll : Pattern → Text → Bool
  | [], t => t = []
  | .anyText :: p, t => anyTail p t
  | part :: p, c :: cs => part.admits c && matchesAll p cs
  | _ :: _, [] => false
where
  /-- Whether some tail of a text matches a pattern. -/
  anyTail (p : Pattern) : Text → Bool
    | [] => matchesAll p []
    | c :: cs => matchesAll p (c :: cs) || anyTail p cs

/-- The text without the shortest or longest beginning, or end, that matches. -/
def withoutMatch (atEnd longest : Bool) (p : Pattern) (t : Text) : Text :=
  let kept := (List.range (t.length + 1)).filter fun n =>
    matchesAll p (if atEnd then t.drop n else t.take n)
  match if longest = atEnd then kept.head? else kept.getLast? with
  | some n => if atEnd then t.take n else t.drop n
  | none => t

end NotePress.Shell
