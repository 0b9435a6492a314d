import NotePress.Text.Octets

/-!
# File names in messages

A name that a shell would read as it stands is shown as it is. Any other one is shown in quotes, so
that it could be copied into a script: what cannot be seen is written as an escape, in quotes of its
own with a dollar sign in front.
-/

namespace NotePress.FileName

/-! ### Languages -/

/-- What the variables of an environment may say about the octets of a text. -/
def languageVariables : List String :=
  ["LC_CTYPE", "LC_NUMERIC", "LC_TIME", "LC_COLLATE", "LC_MONETARY", "LC_MESSAGES", "LC_PAPER",
    "LC_NAME", "LC_ADDRESS", "LC_TELEPHONE", "LC_MEASUREMENT", "LC_IDENTIFICATION"]

/-- The values that say that texts are UTF-8. -/
def utf8Languages : List String := ["C.UTF-8", "C.utf8", "C.UTF8", "C.utf-8"]

/-- The value of a variable, unless it is empty. -/
def setting? (environment : List (Text × Text)) (name : Text) : Option Text :=
  (environment.lookup name).filter (· ≠ [])

/-- Whether texts are UTF-8 by the variables of an environment. All of them have to name a language
that there is, or none of them counts. -/
def isUtf8 (environment : List (Text × Text)) : Bool :=
  let setting := setting? environment
  let value := fun (name : String) =>
    (((setting "LC_ALL".toList).or (setting name.toList)).or (setting "LANG".toList)).getD ['C']
  let isKnown := fun (t : Text) => (["C", "POSIX"] ++ utf8Languages).any fun l => l.toList = t
  languageVariables.all (fun name => isKnown (value name)) &&
    utf8Languages.any fun l => l.toList = value "LC_CTYPE"

/-! ### The parts of a name -/

/-- A part of a name. -/
inductive Part where
  /-- Octets that are shown as they are. -/
  | plain (t : Text)
  | escape (t : Text)
  | quote
  deriving DecidableEq, Repr

/-- The escape of an octet by its number. -/
def numberEscape (c : Char) : Text :=
  let digit := fun (n : Nat) => Char.ofNat (48 + n % 8)
  let n := c.toNat
  ['\\', digit (n / 64), digit (n / 8), digit n]

/-- The letters of octets that have an escape of their own. -/
def letterEscapes : List (Char × Char) :=
  [('\x07', 'a'), ('\x08', 'b'), ('\t', 't'), ('\n', 'n'), ('\x0b', 'v'), ('\x0c', 'f'),
    ('\r', 'r')]

/-- The escape of an octet that cannot be seen. -/
def escapeOf (c : Char) : Text :=
  match letterEscapes.lookup c with
  | some letter => ['\\', letter]
  | none => numberEscape c

/-- Whether a character can be seen. -/
def isVisible (c : Char) : Bool :=
  '\xa0' ≤ c && c ≠ '\u2028' && c ≠ '\u2029' && !(0xfdd0 ≤ c.toNat && c.toNat ≤ 0xfdef) &&
    c.toNat % 0x10000 < 0xfffe

/-- How many octets a character takes that begins with the given one. -/
def widthFrom (c : Char) : Nat :=
  if c < '\xc2' then 1 else if c < '\xe0' then 2 else if c < '\xf0' then 3
  else if c < '\xf5' then 4 else 1

/-- The part that some octets from 128 on begin with, and how many octets it takes beside the first
one. -/
def wideParts (utf8 : Bool) (c : Char) (rest : Text) : List Part × Nat :=
  let width := widthFrom c
  let octets := c :: rest.take (width - 1)
  match if utf8 ∧ 1 < width then Text.decode? (Octets.toBytes octets) else none with
  | some [d] =>
    (if isVisible d then [.plain octets] else octets.map fun o => .escape (numberEscape o),
      width - 1)
  | _ => ([.escape (numberEscape c)], 0)

/-- The parts of a name, of which some octets are passed over. -/
def partsFrom (utf8 : Bool) : (skip : Nat) → Text → List Part
  | _, [] => []
  | skip + 1, _ :: rest => partsFrom utf8 skip rest
  | 0, c :: rest =>
    if c = '\'' then .quote :: partsFrom utf8 0 rest
    else if ' ' ≤ c ∧ c < '\x7f' then .plain [c] :: partsFrom utf8 0 rest
    else if c < '\x80' then .escape (escapeOf c) :: partsFrom utf8 0 rest
    else
      let (parts, taken) := wideParts utf8 c rest
      parts ++ partsFrom utf8 taken rest

/-- The parts of a name. -/
def parts (utf8 : Bool) (name : Text) : List Part := partsFrom utf8 0 name

/-! ### Quoting -/

/-- The octets that mean something to a shell wherever they stand. -/
def marks : Text := " !\"$&()*;<=>?[\\^\x60|:".toList

/-- Whether a shell would not read a name as it stands. -/
def needsQuotes (name : Text) (parts : List Part) : Bool :=
  let isMark := fun (p : Part) => match p with
    | .plain t => t.any marks.contains
    | _ => true
  parts.any isMark || name = [] || name = ['\x7b'] || name = ['\x7d'] ||
    name.head? = some '#' || name.head? = some '~'

/-- Whether a part means the same in double quotes; `first` says whether it begins the name. -/
def isPlainInDouble (first : Bool) : Part → Bool
  | .plain [c] =>
    c.isAlphanum || '\x80' ≤ c || c ∈ " %+,-./:]_@".toList || (first && (c = '#' || c = '~'))
  | .plain _ => true
  | .escape _ => false
  | .quote => true

/-- The parts in single quotes, behind the first one of these. Escapes stand in quotes of their own,
of which `escaping` says whether they are open; the same is said of the end. -/
def singleFrom : (escaping : Bool) → List Part → Text × Bool
  | escaping, [] => ([], escaping)
  | escaping, p :: rest =>
    match p with
    | .plain t =>
      let (more, last) := singleFrom false rest
      ((if escaping then "''".toList else []) ++ t ++ more, last)
    | .escape t =>
      let (more, last) := singleFrom true rest
      ((if escaping then [] else "'$'".toList) ++ t ++ more, last)
    | .quote =>
      let (more, last) := singleFrom false rest
      ("'\\''".toList ++ more, last)

/-- The parts in single quotes. If there is a quote among them, quotes of escapes that are open at
the end count as open at the beginning. -/
def single (parts : List Part) : Text :=
  let escaping := parts.contains .quote && (singleFrom false parts).2
  ['\''] ++ (singleFrom escaping parts).1 ++ ['\'']

/-- A name as it is shown in a message; a name with single quotes stands in double ones if it means
the same there. -/
def shown (utf8 : Bool) (name : Text) : Text :=
  let ps := parts utf8 name
  if !needsQuotes name ps then name
  else if ps.contains .quote ∧ (ps.mapIdx fun i p => isPlainInDouble (i = 0) p).all id then
    ['"'] ++ name ++ ['"']
  else single ps

end NotePress.FileName
