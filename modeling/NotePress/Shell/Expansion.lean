import NotePress.Shell.Arithmetic
import NotePress.Shell.Field

/-!
# Expanding words

A word becomes marks, and these fields. What is quoted stays together; the value of an expansion
that is not quoted is taken apart at separators, and `"$@"` makes a field of every argument. A field
with an open pattern becomes the paths that match it, if there are any.
-/

namespace NotePress.Shell

/-- How a word is expanded. -/
structure Manner where
  /-- Whether it becomes fields, so that arguments may stay apart. -/
  full : Bool
  quoted : Bool := false
  /-- Whether what stands without quotes may be taken apart. -/
  splits : Bool := false
  /-- Whether it is a value, in which several paths may stand. -/
  several : Bool := false
  deriving DecidableEq, Repr

/-! ### Parameters -/

/-- The letters of options in the order they are shown. -/
def optionOrder : Text := "pubaCEVvxsnmiIfe".toList

/-- Joins texts. -/
def joinArguments (joiner : Text) (arguments : List Text) : Text := Text.join joiner arguments

/-- The value of a parameter, if it is set; the arguments are joined. -/
def parameter? (s : Session) (name : Text) : Option Text :=
  match name with
  | ['#'] => some (Text.ofNat s.arguments.length)
  | ['?'] => some (Text.ofNat s.status)
  | ['$'] => some (Text.ofNat s.root)
  | ['!'] => s.lastJob.map Text.ofNat
  | ['-'] => some (optionOrder.filter s.has)
  | ['@'] => some (joinArguments s.joiner s.arguments)
  | ['*'] => some (joinArguments s.joiner s.arguments)
  | _ =>
    match readNat? name with
    | some 0 => some s.name
    | some n => s.arguments[n - 1]?
    | none => s.get? name

/-- The marks of what stands in a script itself. -/
def textMarks (m : Manner) (t : Text) : List Mark :=
  if m.splits then valueOf m.quoted t else marksOf m.quoted false t

/-- The marks of arguments that stay apart. -/
def apart : List Text → List Mark
  | [] => []
  | [t] => .quotes :: marksOf true false t ++ [.arguments]
  | t :: rest => .quotes :: marksOf true false t ++ .border :: apart rest

/-- The marks of arguments that are taken apart further. -/
def loose : List Text → List Mark
  | [] => []
  | [t] => valueOf false t
  | t :: rest => valueOf false t ++ .gap :: loose rest

/-- The marks of the value of a parameter. -/
def valueMarks (m : Manner) (s : Session) (name value : Text) : List Mark :=
  if m.full ∧ name = ['@'] ∧ m.quoted then apart s.arguments
  else if m.full ∧ (name = ['@'] ∨ name = ['*']) ∧ !m.quoted then loose s.arguments
  else valueOf m.quoted value

/-! ### Home directories -/

/-- The users that every system has, with their home directories. -/
def accounts : List (String × String) :=
  [("root", "/root"), ("daemon", "/usr/sbin"), ("bin", "/bin"), ("sys", "/dev"), ("sync", "/bin"),
    ("games", "/usr/games"), ("man", "/var/cache/man"), ("lp", "/var/spool/lpd"),
    ("mail", "/var/mail"), ("news", "/var/spool/news"), ("uucp", "/var/spool/uucp"),
    ("proxy", "/bin"), ("www-data", "/var/www"), ("backup", "/var/backups"), ("list", "/var/list"),
    ("irc", "/run/ircd"), ("nobody", "/nonexistent")]

/-- The home directory of a user, or of the caller if no name is given. -/
def home? (s : Session) (user : Text) : Option Text :=
  if user = [] then s.get? "HOME".toList
  else (accounts.lookup (String.ofList user)).map String.toList

/-- The marks of a text whose beginning may name a home directory, up to a slash, or a colon if
several paths may stand there. `open_` says whether the name may go on behind the text. -/
def tildeMarks (s : Session) (m : Manner) (several open_ : Bool) (t : Text) : List Mark :=
  let plain := marksOf m.quoted m.splits t
  match t with
  | '~' :: cs =>
    let user := cs.takeWhile fun c => c ≠ '/' && !(several && c = ':')
    let rest := cs.drop user.length
    if rest = [] ∧ open_ then plain
    else
      match home? s user with
      | some home => marksOf true false home ++ marksOf m.quoted m.splits rest
      | none => plain
  | _ => plain

/-- The marks of a text in which home directories may stand behind colons too. -/
def severalMarks (s : Session) (m : Manner) (atStart open_ : Bool) (t : Text) : List Mark :=
  let parts := t.splitOn ':'
  let part := fun (i : Nat) (p : Text) =>
    if i = 0 ∧ !atStart then marksOf m.quoted m.splits p
    else tildeMarks s m true (open_ && i + 1 = parts.length) p
  let marked := parts.mapIdx part
  (marked.intersperse (marksOf m.quoted m.splits [':'])).flatten

/-! ### Words -/

/-- Where home directories may be named in a word. -/
inductive Tilde where
  | nowhere
  | atStart
  /-- At the start and behind colons. -/
  | severally
  deriving DecidableEq, Repr

/-- Where home directories may be named in the words of an expansion. -/
def Manner.tilde (m : Manner) : Tilde :=
  if m.quoted then .nowhere else if m.several then .severally else .atStart

/-- The end of what a command writes counts without its line breaks. -/
def outputMarks (m : Manner) (t : Text) : List Mark :=
  valueOf m.quoted ((Text.dropTail (· = '\n') t).filter (· ≠ '\x00'))

/-- Whether an expansion has a value to take. -/
def isPresent (emptyToo : Bool) (value : Option Text) : Bool :=
  value.any fun v => !emptyToo || v ≠ []

/-- Fails because a parameter is not set. -/
def failUnset {α : Type} (name : Text) : Action α :=
  Action.fail (name ++ ": parameter not set".toList)

/-- Fails if a parameter has to be set and is not. -/
def checkSet (name : Text) (value : Option Text) : Action Unit := do
  if value.isNone ∧ (← get).has 'u' then failUnset name

mutual
/-- The marks of a piece. `output` runs a command and gives what it writes. -/
def expandPiece (output : Command → Action Text) (m : Manner) : Piece → Action (List Mark)
  | .text t => return textMarks m t
  | .literal t => return .quotes :: marksOf true false t
  | .double inner => do
    let isAlone : Bool := match inner with
      | [.parameter ['@'] .value] => true
      | _ => false
    let marks ← expandPieces output { m with quoted := true, splits := false } .nowhere true inner
    return if isAlone ∧ m.full then marks else .quotes :: marks
  | .parameter name form => expandForm output m name form
  | .output command => return outputMarks m (← output command)
  | .arithmetic e => do
    let marks ← expandPieces output { full := false, quoted := true } .nowhere true e
    let n ← Arithmetic.value (textOf (lettersOf marks))
    return valueOf m.quoted (Text.ofInt n.toInt)

/-- The marks of pieces. -/
def expandPieces (output : Command → Action Text) (m : Manner) (tilde : Tilde) (atStart : Bool) :
    List Piece → Action (List Mark)
  | [] => return []
  | .text t :: rest => do
    let s ← get
    let marks :=
      if tilde = .severally then severalMarks s m atStart (!rest.isEmpty) t
      else if tilde = .atStart ∧ atStart ∧ t.head? = some '~' then
        tildeMarks s m false (!rest.isEmpty) t
      else textMarks m t
    return marks ++ (← expandPieces output m tilde false rest)
  | p :: rest => do
    let marks ← expandPiece output m p
    return marks ++ (← expandPieces output m tilde false rest)

/-- The marks of an expansion of a parameter. -/
def expandForm (output : Command → Action Text) (m : Manner) (name : Text) :
    Form → Action (List Mark)
  | .value => do
    let s ← get
    let value := parameter? s name
    checkSet name value
    return match value with
      | some t => valueMarks m s name t
      | none => []
  | .length => do
    let s ← get
    let value := parameter? s name
    checkSet name value
    let behind := if m.full ∧ m.quoted ∧ name = ['@'] then [.arguments] else []
    return valueOf m.quoted (Text.ofNat (value.getD []).length) ++ behind
  | .orElse emptyToo w => do
    let s ← get
    let value := parameter? s name
    if isPresent emptyToo value then return valueMarks m s name (value.getD [])
    else expandPieces output { m with splits := !m.quoted } m.tilde true w
  | .andThen emptyToo w => do
    if isPresent emptyToo (parameter? (← get) name) then
      expandPieces output { m with splits := !m.quoted } m.tilde true w
    else return []
  | .assign emptyToo w => do
    let s ← get
    let value := parameter? s name
    if isPresent emptyToo value then return valueMarks m s name (value.getD [])
    else
      let marks ← expandPieces output { full := false, quoted := m.quoted } m.tilde true w
      let t := textOf (lettersOf marks)
      if isName name then
        Action.assign name t
        return valueOf m.quoted t
      else Action.fail (name ++ ": bad variable name".toList)
  | .orFail emptyToo w => do
    let s ← get
    let value := parameter? s name
    if isPresent emptyToo value then return valueMarks m s name (value.getD [])
    else if w.isEmpty then
      Action.fail
        (name ++ (if emptyToo then ": parameter not set or null" else ": parameter not set").toList)
    else
      let marks ← expandPieces output { full := false, quoted := m.quoted } m.tilde true w
      Action.fail (name ++ ": ".toList ++ textOf (lettersOf marks))
  | .without atEnd longest w => do
    let value := parameter? (← get) name
    checkSet name value
    let marks ← expandPieces output { full := false } .atStart true w
    let cut := withoutMatch atEnd longest (patternOf (lettersOf marks))
    if m.full ∧ name = ['@'] ∧ m.quoted then
      return apart ((cut (Text.join ['\x00'] (← get).arguments)).splitOn '\x00')
    else return valueOf m.quoted (cut (value.getD []))
  | .malformed => Action.fail "Bad substitution".toList
end

/-! ### Paths -/

/-- The paths that match the components of a pattern behind a path. -/
def pathsFrom (names : Text → List Text) (exists_ : Text → Bool) :
    Text → List (List Letter) → List Text
  | path, [] => [path]
  | path, component :: rest =>
    let pattern := patternOf component
    let matching :=
      if pattern.isOpen then
        (names path).filter fun n =>
          matchesAll pattern n && (n.head? ≠ some '.' || pattern.head? = some (.char '.'))
      else
        [pattern.filterMap fun p => match p with
          | .char c => some c
          | _ => none]
    matching.flatMap fun n =>
      if rest.isEmpty then if exists_ (path ++ n) then [path ++ n] else []
      else pathsFrom names exists_ (path ++ n ++ ['/']) rest

/-- The names in a directory that a script can see. -/
def namesAt (s : Session) (path : Text) : List Text :=
  match s.disk.locate (s.path (if path = [] then ['.'] else path)) with
  | .ok names =>
    if s.disk.entry? names = some .directory then
      [['.'], ['.', '.']] ++ (s.disk.namesIn names).map Octets.ofText
    else []
  | .error _ => []

/-- Whether something stands at a path. -/
def isThere (s : Session) (path : Text) : Bool :=
  match s.disk.locate (s.path path) with
  | .ok _ => true
  | .error _ => false

/-- Cuts a row of letters at slashes. -/
def components (field : List Letter) : List (List Letter) :=
  (field.splitOnP fun l => l.char = '/')

/-- The texts of a field: the paths that match it, in order, or the field itself. -/
def textsOf (s : Session) (field : List Letter) : List Text :=
  if s.has 'f' ∨ !(patternOf field).isOpen then [textOf field]
  else
    match pathsFrom (namesAt s) (isThere s) [] (components field) with
    | [] => [textOf field]
    | paths => paths.mergeSort fun a b => !Text.lt b a

/-! ### Fields -/

/-- The texts of a word that becomes fields. -/
def expandFields (output : Command → Action Text) (w : Word) : Action (List Text) := do
  let marks ← expandPieces output { full := true } .atStart true w
  let s ← get
  return (splitFields s.separators marks).flatMap (textsOf s)

/-- The letters of a word that is not taken apart. -/
def expandLetters (output : Command → Action Text) (tilde : Tilde) (w : Word) :
    Action (List Letter) := do
  let m : Manner := { full := false, several := tilde = .severally }
  return lettersOf (← expandPieces output m tilde true w)

/-- The text of a word that is not taken apart. -/
def expandWhole (output : Command → Action Text) (tilde : Tilde) (w : Word) : Action Text :=
  return textOf (← expandLetters output tilde w)

/-- The text of a here-document. -/
def expandDocument (output : Command → Action Text) (w : Word) : Action Text :=
  return textOf (lettersOf
    (← expandPieces output { full := false, quoted := true } .nowhere true w))

end NotePress.Shell
