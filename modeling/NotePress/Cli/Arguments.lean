import NotePress.Text.Basic

/-!
# Reading arguments

An option is written `--name value` or `--name=value`, or `-n value`, `-nvalue` or `-n=value` with
its letter; letters may share a dash. An option is given at most once. What follows `--` is no
option. Where a command takes further arguments, they begin at the first one that is no option it
knows, and everything from there on belongs to them.
-/

namespace NotePress.Cli

/-- What an option takes. -/
inductive OptionKind where
  | nothing
  | text
  /-- A path, which must not be empty. -/
  | path
  /-- Asks for help. -/
  | help
  /-- Asks for the version. -/
  | version
  deriving DecidableEq, Repr

/-- An option. -/
structure OptionSpec where
  name : Text
  letter : Option Char := none
  kind : OptionKind
  deriving DecidableEq, Repr

/-- The arguments that a command takes. -/
structure ArgumentSpec where
  options : List OptionSpec
  /-- The number of paths it takes. -/
  paths : Nat := 0
  /-- Whether further arguments may follow. -/
  further : Bool := false
  deriving Repr

/-- The arguments read so far. -/
structure Given where
  options : List (Text × Text) := []
  paths : List Text := []
  further : List Text := []
  deriving DecidableEq, Repr

/-- How reading arguments ends. -/
inductive Reading where
  | given (g : Given)
  | help
  | version
  | refused
  deriving DecidableEq, Repr

/-- What comes behind the options of an argument. -/
inductive ShapeEnd where
  | nothing
  /-- An option that waits for its value. -/
  | waiting (o : OptionSpec)
  /-- A letter that is not known. -/
  | unknown
  deriving DecidableEq, Repr

/-- What an argument is. -/
inductive ArgumentShape where
  /-- `--`. -/
  | separator
  /-- Options with their values, and what follows them. -/
  | options (given : List (OptionSpec × Option Text)) (ending : ShapeEnd)
  | word
  /-- An option that is not known, or that takes no value and has one. -/
  | malformed
  deriving DecidableEq, Repr

namespace ArgumentSpec

/-- The option of a name. -/
def named? (spec : ArgumentSpec) (name : Text) : Option OptionSpec :=
  spec.options.find? fun o => o.name = name

/-- The option of a letter. -/
def lettered? (spec : ArgumentSpec) (c : Char) : Option OptionSpec :=
  spec.options.find? fun o => o.letter = some c

/-- Whether an option takes a value. -/
def takesValue (o : OptionSpec) : Bool := o.kind = .text || o.kind = .path

/-- Whether an unknown option would begin the further arguments. -/
def furtherNext (spec : ArgumentSpec) (g : Given) : Bool :=
  spec.further && g.paths.length = spec.paths

/-- The shape of an option given by its name. -/
def shapeOfName (spec : ArgumentSpec) (g : Given) (t : Text) : ArgumentShape :=
  let (name, value) := match Text.cutAt? '=' t with
    | some (name, value) => (name, some value)
    | none => (t, none)
  match spec.named? name with
  | some o =>
    if takesValue o then
      match value with
      | some v => .options [(o, some v)] .nothing
      | none => .options [] (.waiting o)
    else if value.isSome then .malformed
    else .options [(o, none)] .nothing
  | none => if spec.furtherNext g then .word else .malformed

/-- The options of letters that share a dash, up to one that is not known. -/
def lettersOf (spec : ArgumentSpec) : Text → List (OptionSpec × Option Text) × ShapeEnd
  | [] => ([], .nothing)
  | c :: cs =>
    match spec.lettered? c with
    | none => ([], .unknown)
    | some o =>
      if takesValue o then
        match cs with
        | [] => ([], .waiting o)
        | '=' :: value => ([(o, some value)], .nothing)
        | value => ([(o, some value)], .nothing)
      else
        let (given, ending) := spec.lettersOf cs
        ((o, none) :: given, ending)

/-- The shape of options given by their letters. -/
def shapeOfLetters (spec : ArgumentSpec) (g : Given) (t : Text) : ArgumentShape :=
  if spec.furtherNext g ∧ t.any fun c => (spec.lettered? c).isNone then .word
  else
    let (given, ending) := spec.lettersOf t
    .options given ending

/-- The shape of an argument. -/
def shapeOf (spec : ArgumentSpec) (g : Given) : Text → ArgumentShape
  | ['-', '-'] => .separator
  | '-' :: '-' :: t => spec.shapeOfName g t
  | '-' :: c :: t => spec.shapeOfLetters g (c :: t)
  | _ => .word

/-- Adds the value of an option; refused if the option was given before, or if a path is empty. -/
def addOption (g : Given) (o : OptionSpec) (value : Text) : Reading :=
  if g.options.any fun p => p.1 = o.name then .refused
  else if o.kind = .path ∧ value = [] then .refused
  else .given { g with options := g.options ++ [(o.name, value)] }

/-- Adds options in order. One that asks for help or for the version ends the reading at once. -/
def addOptions (g : Given) : List (OptionSpec × Option Text) → Reading
  | [] => .given g
  | (o, value) :: rest =>
    if o.kind = .help then .help
    else if o.kind = .version then .version
    else
      match addOption g o (value.getD []) with
      | .given g => addOptions g rest
      | ended => ended

/-- Adds words: paths first, then further arguments. -/
def addWords (spec : ArgumentSpec) (g : Given) : List Text → Reading
  | [] => .given g
  | w :: rest =>
    if g.paths.length < spec.paths then
      if w = [] then .refused else addWords spec { g with paths := g.paths ++ [w] } rest
    else if spec.further then .given { g with further := w :: rest }
    else .refused

/-- Reads arguments behind those read so far, with an option that waits for its value. -/
def readFrom (spec : ArgumentSpec) : Given → Option OptionSpec → List Text → Reading
  | g, none, [] => if g.paths.length = spec.paths then .given g else .refused
  | _, some _, [] => .refused
  | g, waiting, a :: rest =>
    match spec.shapeOf g a, waiting with
    | .malformed, _ => .refused
    | .separator, some _ => .refused
    | .separator, none =>
      match spec.addWords g rest with
      | .given g => if g.paths.length = spec.paths then .given g else .refused
      | ended => ended
    | .options _ _, some _ => .refused
    | .options given ending, none =>
      match addOptions g given, ending with
      | .given g, .nothing => spec.readFrom g none rest
      | .given g, .waiting o => spec.readFrom g (some o) rest
      | .given _, .unknown => .refused
      | ended, _ => ended
    | .word, some o =>
      match addOption g o a with
      | .given g => spec.readFrom g none rest
      | ended => ended
    | .word, none =>
      if g.paths.length < spec.paths then
        if a = [] then .refused else spec.readFrom { g with paths := g.paths ++ [a] } none rest
      else spec.addWords g (a :: rest)

/-- Reads arguments. -/
def read (spec : ArgumentSpec) (args : List Text) : Reading := spec.readFrom {} none args

end ArgumentSpec

namespace Given

/-- The value of an option. -/
def value? (g : Given) (name : String) : Option Text := g.options.lookup name.toList

/-- Whether an option was given. -/
def has (g : Given) (name : String) : Bool := (g.value? name).isSome

end Given

end NotePress.Cli
