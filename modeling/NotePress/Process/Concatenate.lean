import NotePress.Process.FileName
import NotePress.Process.Task

/-!
# Writing out files

A program that writes its files, or its input, one after the other. On demand it numbers the lines,
drops repeated empty ones, and shows what cannot be seen. Options may stand anywhere in front of
`--`, unless a variable asks for the options in front of the files.
-/

namespace NotePress.Concatenate

/-- What is shown beside the files themselves. -/
structure Options where
  numbers : Bool := false
  /-- Whether empty lines are not numbered. -/
  skipsEmpty : Bool := false
  ends : Bool := false
  squeezes : Bool := false
  tabs : Bool := false
  /-- Whether what is no visible character is written with signs. -/
  signs : Bool := false
  deriving DecidableEq, Repr

namespace Options

/-- Sets the option of a letter. -/
def set? (o : Options) (c : Char) : Option Options :=
  match c with
  | 'n' => some { o with numbers := true }
  | 'b' => some { o with numbers := true, skipsEmpty := true }
  | 'E' => some { o with ends := true }
  | 's' => some { o with squeezes := true }
  | 'T' => some { o with tabs := true }
  | 'v' => some { o with signs := true }
  | 'e' => some { o with ends := true, signs := true }
  | 't' => some { o with tabs := true, signs := true }
  | 'A' => some { o with ends := true, tabs := true, signs := true }
  | 'u' => some o
  | _ => none

/-- The letters of the options by their long names. -/
def names : List (String × Char) :=
  [("number-nonblank", 'b'), ("number", 'n'), ("squeeze-blank", 's'), ("show-nonprinting", 'v'),
    ("show-ends", 'E'), ("show-tabs", 'T'), ("show-all", 'A')]

end Options

/-! ### Arguments -/

/-- Why no files are written: something else is asked for, or an option is wrong. -/
inductive Fault where
  | help
  | version
  | letter (c : Char)
  | unknown (argument : Text)
  /-- A value is given to an option that has none. -/
  | valued (name : Text)
  | ambiguous (argument : Text) (candidates : List Text)
  deriving DecidableEq, Repr

/-- What all long options stand for. -/
def longNames : List (Text × Except Fault Char) :=
  (Options.names.map fun n => (n.1.toList, .ok n.2)) ++
    [("help".toList, .error .help), ("version".toList, .error .version)]

/-- Finds a long option by its name or the beginning of it. -/
def named? (argument : Text) : Except Fault Char :=
  let given := argument.drop 2
  let name := given.takeWhile (· ≠ '=')
  let chosen := match longNames.find? fun n => n.1 = name with
    | some n => [n]
    | none => longNames.filter fun n => name.isPrefixOf n.1
  match chosen with
  | [] => .error (.unknown argument)
  | [n] => if name = given then n.2 else .error (.valued n.1)
  | several => .error (.ambiguous argument (several.map (·.1)))

/-- Sets the options of letters. -/
def setLetters (o : Options) : Text → Except Fault Options
  | [] => .ok o
  | c :: rest =>
    match o.set? c with
    | some o => setLetters o rest
    | none => .error (.letter c)

/-- The options and the files that arguments name. `inOrder` says that nothing behind the first file
is an option. -/
def readArguments (inOrder : Bool) (o : Options) : List Text → Except Fault (Options × List Text)
  | [] => .ok (o, [])
  | ['-', '-'] :: rest => .ok (o, rest)
  | argument@('-' :: '-' :: _) :: rest => do
    let c ← named? argument
    readArguments inOrder ((o.set? c).getD o) rest
  | ('-' :: c :: letters) :: rest => do
    readArguments inOrder (← setLetters o (c :: letters)) rest
  | file :: rest => do
    if inOrder then return (o, file :: rest)
    let (o, files) ← readArguments inOrder o rest
    return (o, file :: files)

/-- How the program is used. -/
def usage (name : Text) : Text :=
  "Usage: ".toList ++ name ++ " [OPTION]... [FILE]...
Concatenate FILE(s) to standard output.

With no FILE, or when FILE is -, read standard input.

  -A, --show-all           equivalent to -vET
  -b, --number-nonblank    number nonempty output lines, overrides -n
  -e                       equivalent to -vE
  -E, --show-ends          display $ at end of each line
  -n, --number             number all output lines
  -s, --squeeze-blank      suppress repeated empty output lines
  -t                       equivalent to -vT
  -T, --show-tabs          display TAB characters as ^I
  -u                       (ignored)
  -v, --show-nonprinting   use ^ and M- notation, except for LFD and TAB
      --help        display this help and exit
      --version     output version information and exit
".toList

/-- What is said about options that are not followed. -/
def Fault.message (name : Text) : Fault → Text
  | .help => usage name
  | .version => "cat 9.4\n".toList
  | .letter c => "invalid option -- '".toList ++ [c, '\'']
  | .unknown argument => "unrecognized option '".toList ++ argument ++ ['\'']
  | .valued name => "option '--".toList ++ name ++ "' doesn't allow an argument".toList
  | .ambiguous argument candidates =>
    "option '".toList ++ argument ++ "' is ambiguous; possibilities:".toList ++
      candidates.flatMap fun n => " '--".toList ++ n ++ ['\'']

/-! ### Showing -/

/-- Where writing is: the number of the last line that got one, and how many line breaks were
written without anything between, counted up to three from the start of a file on. -/
structure Place where
  line : Nat := 0
  breaks : Nat := 1
  deriving DecidableEq, Repr

/-- A number in front of its line. -/
def lineNumber (n : Nat) : List UInt8 :=
  let digits := Text.ofNat n
  Text.encode (List.replicate (6 - digits.length) ' ' ++ digits ++ ['\t'])

/-- A byte below 128 that may be no visible character. -/
def sign (b : UInt8) : List UInt8 :=
  if b = 127 then [94, 63] else if b < 32 then [94, b + 64] else [b]

/-- A byte as it is shown. -/
def byteShown (o : Options) (b : UInt8) : List UInt8 :=
  if b = 9 then if o.tabs then [94, 73] else [b]
  else if !o.signs then [b]
  else if b < 128 then sign b
  else [77, 45] ++ sign (b - 128)

/-- Shows bytes from a place on, the last one first, and gives the place behind them. -/
def showFrom (o : Options) : Place → List UInt8 → List UInt8 → List UInt8 × Place
  | place, shown, [] => (shown, place)
  | place, shown, b :: rest =>
    let numbered := fun (shown : List UInt8) => (lineNumber (place.line + 1)).reverse ++ shown
    if b = 10 then
      let isEmpty := 0 < place.breaks
      if 2 ≤ place.breaks ∧ o.squeezes then showFrom o place shown rest
      else
        let hasNumber := isEmpty && o.numbers && !o.skipsEmpty
        let shown := if hasNumber then numbered shown else shown
        let shown := if o.ends then 36 :: shown else shown
        let line := if hasNumber then place.line + 1 else place.line
        showFrom o ⟨line, min 3 (place.breaks + 1)⟩ (10 :: shown) rest
    else
      let hasNumber := 0 < place.breaks ∧ o.numbers
      let shown := if hasNumber then numbered shown else shown
      let bytes := if b = 13 ∧ o.ends ∧ rest.head? = some 10 then [94, 77] else byteShown o b
      showFrom o ⟨if hasNumber then place.line + 1 else place.line, 0⟩ (bytes.reverse ++ shown) rest

/-! ### Files -/

/-- A file name in a message. -/
def nameShown (t : Task) (file : Text) : Text :=
  FileName.shown (FileName.isUtf8 t.environment) file

/-- What is known of a run: what has to be said at its end, and where writing is. -/
structure Progress where
  world : World
  place : Place := {}
  /-- Whether the input was read. -/
  usedInput : Bool := false
  code : Nat := 0

/-- Notes that something went wrong. -/
def Progress.complain (p : Progress) (t : Task) (octets : Text) : Progress :=
  { p with world := t.complain octets p.world, code := 1 }

/-- Whether bytes would be read from the file to which they are written. -/
def isOwnOutput (w : World) (t : Task) (o : Opening) : Bool :=
  let output : Channel := ((w.opening? t.streams 1).map (·.channel)).getD .nothing
  match o.channel, output with
  | .file names, .file others => names = others && o.unread w.disk ≠ []
  | _, _ => false

/-- Writes out what is open under a number. The flag says whether the program can go on. -/
def writeOpening (o : Options) (t : Task) (file : Text) (index : Nat) (p : Progress) :
    Progress × Bool :=
  let complain := fun (what : Text) => p.complain t (nameShown t file ++ ": ".toList ++ what)
  match p.world.openings[index]? with
  | none => (complain StreamFault.closed.message, true)
  | some source =>
    if isOwnOutput p.world t source then (complain "input file is output file".toList, true)
    else
      match p.world.unread [(0, index)] 0 with
      | .error e => (complain e.message, true)
      | .ok bytes =>
        let (shown, place) := showFrom o p.place [] bytes
        let world := p.world.exchange index { source with place := source.place + bytes.length }
        let fault := if shown = [] then .ok world else world.write t.streams 1 shown.reverse
        match fault with
        | .ok world => ({ p with world, place }, true)
        | .error e =>
          (({ p with world } : Progress).complain t ("write error: ".toList ++ e.message), false)

/-- Writes out a file, or the input. -/
def writeFile (o : Options) (t : Task) (file : Text) (p : Progress) : Progress × Bool :=
  if file = ['-'] then
    writeOpening o t file ((t.streams.lookup 0).getD p.world.openings.size)
      { p with usedInput := true }
  else
    match p.world.openPath t.streams false .read (t.path file) with
    | .ok (index, world) => writeOpening o t file index { p with world }
    | .error e =>
      let why := ((e.system?).map (·.2)).getD e.message
      (p.complain t (nameShown t file ++ ": ".toList ++ why), true)

/-- Writes out files up to the first one at which the output takes nothing more. -/
def writeFiles (o : Options) (t : Task) : List Text → Progress → Progress
  | [], p =>
    if p.usedInput ∧ (t.streams.lookup 0).isNone then
      p.complain t ("closing standard input: ".toList ++ StreamFault.closed.message)
    else p
  | file :: rest, p =>
    match writeFile o t file p with
    | (p, true) => writeFiles o t rest p
    | (p, false) => p

/-- Runs the program. -/
def run (t : Task) (w : World) : Ending × World :=
  let inOrder := (t.environment.lookup "POSIXLY_CORRECT".toList).isSome
  match readArguments inOrder {} t.arguments with
  | .error e =>
    let message := e.message t.name
    if e = .help ∨ e = .version then (.exited 0, t.write 1 message w)
    else (.exited 1, t.refuse message w)
  | .ok (o, files) =>
    if (w.opening? t.streams 1).isNone then
      (.exited 1, t.complain ("standard output: ".toList ++ StreamFault.closed.message) w)
    else
      let p := writeFiles o t (if files = [] then [['-']] else files) { world := w }
      (.exited p.code, p.world)

end NotePress.Concatenate
