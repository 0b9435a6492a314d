import NotePress.Process.FileName
import NotePress.Process.Task

/-!
# Small programs

Programs that every system has and that do little: they write their arguments, the variables they
see, their directory, or the names in a directory, remove files, or do nothing but end.
-/

namespace NotePress

/-- A small program. -/
inductive Utility where
  /-- Ends well. -/
  | succeed
  /-- Ends with an exit code of one. -/
  | fail
  /-- Waits for a while. -/
  | pause
  | writeArguments
  | writeVariables
  | writeDirectory
  | listDirectory
  | removeFiles
  deriving DecidableEq, Repr

namespace Utility

/-- Writes octets to the output and ends with an exit code. -/
def wrote (t : Task) (octets : Text) (code : Nat) (w : World) : Ending × World :=
  (.exited code, t.write 1 octets w)

/-! ### Writing arguments -/

/-- The number of digits in a base. -/
def readDigits (base : Nat) (digits : Text) : Nat :=
  digits.foldl (fun n c => n * base + (c.toLower.toNat - if c.isDigit then 48 else 87)) 0

/-- Whether a character is a digit of base 16. -/
def isHexDigit (c : Char) : Bool :=
  c.isDigit || ('a' ≤ c && c ≤ 'f') || ('A' ≤ c && c ≤ 'F')

/-- Octets with their escapes replaced, and whether `\c` ended all writing. -/
def unescape : Nat → Text → Text × Bool
  | 0, _ => ([], false)
  | _ + 1, [] => ([], false)
  | fuel + 1, '\\' :: c :: rest =>
    let goOn := fun (c : Text) (rest : Text) =>
      let (more, ended) := unescape fuel rest
      (c ++ more, ended)
    let octal := fun (t : Text) =>
      let digits := (t.take 3).takeWhile fun c => '0' ≤ c && c ≤ '7'
      goOn [Char.ofNat (readDigits 8 digits % 256)] (t.drop digits.length)
    match c with
    | 'c' => ([], true)
    | 'a' => goOn ['\x07'] rest
    | 'b' => goOn ['\x08'] rest
    | 'e' => goOn ['\x1b'] rest
    | 'f' => goOn ['\x0c'] rest
    | 'n' => goOn ['\n'] rest
    | 'r' => goOn ['\r'] rest
    | 't' => goOn ['\t'] rest
    | 'v' => goOn ['\x0b'] rest
    | '\\' => goOn ['\\'] rest
    | '0' => octal rest
    | 'x' =>
      let digits := (rest.take 2).takeWhile isHexDigit
      if digits = [] then goOn ['\\', c] rest
      else goOn [Char.ofNat (readDigits 16 digits)] (rest.drop digits.length)
    | c => if '1' ≤ c ∧ c ≤ '7' then octal (c :: rest) else goOn ['\\', c] rest
  | fuel + 1, c :: rest =>
    let (more, ended) := unescape fuel rest
    (c :: more, ended)

/-- The flags in front of arguments: whether a line break follows, and whether escapes count. -/
def echoFlags (breaks escapes : Bool) : List Text → Bool × Bool × List Text
  | [] => (breaks, escapes, [])
  | t :: rest =>
    match t with
    | '-' :: c :: letters =>
      if (c :: letters).all fun c => c ∈ "neE".toList then
        let last := ((c :: letters).filter (· ≠ 'n')).getLast?
        echoFlags (breaks && !(c :: letters).contains 'n')
          ((last.map fun c => c == 'e').getD escapes) rest
      else (breaks, escapes, t :: rest)
    | _ => (breaks, escapes, t :: rest)

/-- What a program writes that writes its arguments. -/
def echo (args : List Text) : Text :=
  let (breaks, escapes, args) := echoFlags true false args
  let t := Text.join [' '] args
  let (t, ended) := if escapes then unescape (t.length + 1) t else (t, false)
  if breaks && !ended then t ++ ['\n'] else t

/-! ### Variables -/

/-- Writes the values of variables, or all variables. The exit code is one if one is missing. -/
def printVariables (t : Task) : World → Ending × World :=
  let line := fun (t : Text) => t ++ ['\n']
  if t.arguments = [] then
    wrote t (t.environment.flatMap fun v => line (v.1 ++ '=' :: v.2)) 0
  else
    let values := t.arguments.map fun name => t.environment.lookup name
    wrote t ((values.filterMap id).flatMap line) (if values.all Option.isSome then 0 else 1)

/-! ### Flags -/

/-- Sets the flags of letters, or gives the one that there is not. -/
def setFlags {α : Type} (set? : α → Char → Option α) (flags : α) : Text → Except Char α
  | [] => .ok flags
  | c :: rest =>
    match set? flags c with
    | some flags => setFlags set? flags rest
    | none => .error c

/-- The flags and the paths that arguments name. -/
def readFlags {α : Type} (set? : α → Char → Option α) (flags : α) :
    List Text → Except Char (α × List Text)
  | [] => .ok (flags, [])
  | ['-', '-'] :: rest => .ok (flags, rest)
  | ('-' :: c :: letters) :: rest => do
    readFlags set? (← setFlags set? flags (c :: letters)) rest
  | path :: rest => do
    let (flags, paths) ← readFlags set? flags rest
    return (flags, path :: paths)

/-- Refuses a letter that is no flag. -/
def refuseFlag (t : Task) (c : Char) (w : World) : World :=
  t.refuse ("invalid option -- '".toList ++ [c, '\'']) w

/-! ### Directories -/

/-- How names are listed. -/
structure Listing where
  /-- Whether names that begin with a dot are listed, and `.` and `..` too. -/
  hidden : Bool := false
  parents : Bool := false
  reversed : Bool := false
  /-- Whether a directory is listed itself. -/
  itself : Bool := false
  deriving DecidableEq, Repr

/-- Sets the flag of a letter. -/
def Listing.set? (l : Listing) (c : Char) : Option Listing :=
  match c with
  | 'a' => some { l with hidden := true, parents := true }
  | 'A' => some { l with hidden := true }
  | 'r' => some { l with reversed := true }
  | 'd' => some { l with itself := true }
  | '1' => some l
  | _ => none

/-- Names in the order of their octets. -/
def Listing.order (l : Listing) (names : List Text) : List Text :=
  let sorted := names.mergeSort fun a b => !Text.lt b a
  if l.reversed then sorted.reverse else sorted

/-- The names in a directory. -/
def Listing.namesAt (l : Listing) (d : Disk) (path : Text) : List Text :=
  match d.locate path with
  | .ok names =>
    let all := (d.namesIn names).map Octets.ofText
    let shown := all.filter fun n => l.hidden || n.head? ≠ some '.'
    l.order ((if l.parents then [['.'], ['.', '.']] else []) ++ shown)
  | .error _ => []

/-- Lists the names in directories. -/
def list (t : Task) (w : World) : Ending × World :=
  match readFlags Listing.set? {} t.arguments with
  | .error c => (.exited 2, refuseFlag t c w)
  | .ok (l, paths) =>
    let d := w.disk
    let given := if paths = [] then [['.']] else paths
    let fault? := fun (path : Text) => match d.locate (t.path path) with
      | .ok _ => none
      | .error e => some (((e.system?).map (·.2)).getD e.message)
    let isListed := fun (path : Text) => !l.itself && d.isDirectory (t.path path)
    let lines := fun (names : List Text) => names.map fun n => n ++ ['\n']
    let complain := fun (r : Nat × World) (path : Text) =>
      match fault? path with
      | some why => (2, t.complain ("cannot access '".toList ++ path ++ "': ".toList ++ why) r.2)
      | none => r
    let there := given.filter fun p => (fault? p).isNone
    let files := there.filter fun p => !isListed p
    let block := fun (path : Text) =>
      let heading := if 1 < given.length then [path ++ ":\n".toList] else []
      heading ++ lines (l.namesAt d (t.path path))
    let directories := (l.order (there.filter isListed)).map block
    let blocks := if files = [] then directories else lines (l.order files) :: directories
    let (code, w) := given.foldl complain (0, w)
    wrote t (blocks.intersperse [['\n']]).flatten.flatten code w

/-! ### Removing files -/

/-- How files are removed. -/
structure Removal where
  /-- Whether files that are not there are passed over. -/
  forced : Bool := false
  /-- Whether directories are removed with all that is in them. -/
  recursive : Bool := false
  /-- Whether empty directories are removed. -/
  empty : Bool := false
  deriving DecidableEq, Repr

/-- Sets the flag of a letter. -/
def Removal.set? (r : Removal) (c : Char) : Option Removal :=
  match c with
  | 'f' => some { r with forced := true }
  | 'r' | 'R' => some { r with recursive := true }
  | 'd' => some { r with empty := true }
  | _ => none

/-- A name in quotes. -/
def quotedName (t : Task) (name : Text) : Text :=
  let shown := FileName.shown (FileName.isUtf8 t.environment) name
  if shown = name then ['\''] ++ name ++ ['\''] else shown

/-- Where what is to be removed stands, or why it is not removed. -/
def Removal.target (r : Removal) (t : Task) (d : Disk) (path : Text) : Except Text (List Text) :=
  let cannot := fun (why : Text) =>
    .error ("cannot remove ".toList ++ quotedName t path ++ ": ".toList ++ why)
  let last := ((path.splitOn '/').filter (· ≠ [])).getLast?
  match d.locate (t.path path) with
  | .error e => cannot (((e.system?).map (·.2)).getD e.message)
  | .ok names =>
    if d.entry? names ≠ some .directory then .ok names
    else if !r.recursive && !r.empty then cannot "Is a directory".toList
    else if last = some ['.'] ∨ last = some ['.', '.'] then
      .error ("refusing to remove '.' or '..' directory: skipping ".toList ++ quotedName t path)
    else if !r.recursive && d.namesIn names ≠ [] then cannot "Directory not empty".toList
    else .ok names

/-- Removes what stands at a path; the directory that holds it stays. -/
def Removal.remove (r : Removal) (t : Task) (state : Nat × World) (path : Text) : Nat × World :=
  let (code, w) := state
  let isGone := match w.disk.locate (t.path path) with
    | .error e => e = .missing || e = .notADirectory
    | .ok _ => false
  if r.forced && isGone then state
  else
    match r.target t w.disk path with
    | .error why => (1, t.complain why w)
    | .ok names =>
      (code, { w with disk := (w.disk.remove names).put names.dropLast .directory })

/-- Removes files. -/
def remove (t : Task) (w : World) : Ending × World :=
  match readFlags Removal.set? {} t.arguments with
  | .error c => (.exited 1, refuseFlag t c w)
  | .ok (r, paths) =>
    if paths = [] ∧ !r.forced then (.exited 1, t.refuse "missing operand".toList w)
    else
      let (code, w) := paths.foldl (r.remove t) (0, w)
      (.exited code, w)

/-! ### Running -/

/-- Whether a word says how long to wait. -/
def isDuration (t : Text) : Bool :=
  let t := Text.dropTail (· ∈ "smhd".toList) t
  t.any Char.isDigit && t.all fun c => c.isDigit || c = '.'

/-- Runs a small program. -/
def run (u : Utility) (t : Task) (w : World) : Ending × World :=
  match u with
  | succeed => (.exited 0, w)
  | fail => (.exited 1, w)
  | pause =>
    match t.arguments with
    | [] => (.exited 1, t.refuse "missing operand".toList w)
    | args =>
      match args.find? fun t => !isDuration t with
      | some d => (.exited 1, t.refuse ("invalid time interval '".toList ++ d ++ ['\'']) w)
      | none => (.exited 0, w)
  | writeArguments => wrote t (echo t.arguments) 0 w
  | writeVariables => printVariables t w
  | writeDirectory => wrote t (Octets.ofText t.directory ++ ['\n']) 0 w
  | listDirectory => list t w
  | removeFiles => remove t w

/-- The programs by their names. -/
def names : List (String × Utility) :=
  [("true", succeed), ("false", fail), ("sleep", pause), ("echo", writeArguments),
    ("printenv", writeVariables), ("pwd", writeDirectory), ("ls", listDirectory),
    ("rm", removeFiles)]

end Utility

end NotePress
