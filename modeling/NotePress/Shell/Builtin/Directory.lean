import NotePress.Shell.Builtin.Argument

/-!
# Going to directories

`cd` follows the names of a path as they stand, `..` takes one of them back; on demand it follows
where the path really leads.
-/

namespace NotePress.Shell.Builtin

/-! ### Directories -/

/-- The absolute path of a directory, without `.` and `..`. Two slashes in front of it stay. -/
def directoryPath (here t : Text) : Text :=
  let path := Path.join here (Octets.toText t)
  let step := fun (names : List Text) (name : Text) =>
    if name = [] ∨ name = ['.'] then names
    else if name = ['.', '.'] then names.dropLast
    else names ++ [name]
  let names := (path.splitOn '/').foldl step []
  let isDouble := path.take 2 = ['/', '/'] ∧ path[2]? ≠ some '/'
  if isDouble then '/' :: Path.ofNames names else Path.ofNames names

/-- Whether a directory is named without regard to the places where directories are looked for. -/
def isPlainDirectory (t : Text) : Bool :=
  match t with
  | '/' :: _ => true
  | ['.'] => true
  | '.' :: '/' :: _ => true
  | ['.', '.'] => true
  | '.' :: '.' :: '/' :: _ => true
  | _ => false

/-- The paths at which a directory is looked for, each with whether the path is shown. The empty
name means the current directory. -/
def directoryCandidates (s : Session) (t : Text) : List (Text × Bool) :=
  let places := if isPlainDirectory t then none else s.get? "CDPATH".toList
  let t := if t = [] then ['.'] else t
  match places with
  | none => [(t, false)]
  | some places =>
    let candidate := fun (place : Text) =>
      if place = [] then (t, false) else (place ++ '/' :: t, true)
    (places.splitOn ':').map candidate ++ [(t, false)]

/-- Whether the options of `cd` and `pwd` ask for the path that is really gone. -/
def isPhysical (found : List (Char × Text)) : Bool := (found.getLast?.map (·.1)) = some 'P'

/-- Where a directory is that a path leads to, by the names themselves or really gone. -/
def directoryAt? (s : Session) (physical : Bool) (t : Text) : Option Text :=
  if physical then
    match s.disk.locate (s.path t) with
    | .ok names => if s.disk.entry? names = some .directory then some (Path.ofNames names) else none
    | .error _ => none
  else
    let path := directoryPath s.directory t
    if s.disk.isDirectory path then some path else none

/-- Sets a variable that programs see. -/
def exportValue (name value : Text) : Action Unit := do
  Action.assign name value
  modify fun s =>
    match s.variableOf? name with
    | some v => s.put name { v with exported := true }
    | none => s

/-- Goes to a directory; `-` goes back to the one before. -/
def changeDirectory (args : List Text) : Action Nat := do
  let (found, args) ← options "LP" "" args
  let s ← get
  let (target, goesBack) := match args with
    | [] => ((s.get? "HOME".toList).getD [], false)
    | ['-'] :: _ => ((s.get? "OLDPWD".toList).getD [], true)
    | t :: _ => (t, false)
  let there := fun (c : Text × Bool) => s.disk.isDirectory (s.path c.1)
  let (chosen, shows) := ((directoryCandidates s target).find? there).getD (target, false)
  match directoryAt? s (isPhysical found) chosen with
  | none => Action.fail ("can't cd to ".toList ++ target)
  | some path =>
    let stale := s.located.map fun l => (l.1, { l.2 with stale := true })
    set { s with directory := path, located := stale }
    exportValue "OLDPWD".toList (Octets.ofText s.directory)
    exportValue "PWD".toList (Octets.ofText path)
    if shows || goesBack then Action.say (Octets.ofText path ++ ['\n']) else return 0

/-- Writes the directory. -/
def showDirectory (args : List Text) : Action Nat := do
  let (found, _) ← options "LP" "" args
  let s ← get
  let path := if isPhysical found then (directoryAt? s true ['.']).getD s.directory else s.directory
  Action.say (Octets.ofText path ++ ['\n'])

end NotePress.Shell.Builtin
