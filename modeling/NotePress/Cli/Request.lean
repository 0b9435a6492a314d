import NotePress.Cli.Arguments

/-!
# Requests of the command line

What the tool can be asked to do, and the arguments that ask for it.
-/

namespace NotePress.Cli

/-- The arguments that conversions and their commands share. -/
structure NoteRequest where
  note : Text
  /-- The name of the output format. -/
  format : Text
  profile : Option Text
  /-- The settings file. -/
  settings : Option Text
  output : Option Text
  /-- Arguments for the compiler. -/
  extra : List Text
  deriving DecidableEq, Repr

/-- What the tool is asked to do. -/
inductive Request where
  /-- Converts a note. -/
  | convert (note : NoteRequest) (vault : Option Text) (stream quiet : Bool)
  /-- Shows the compiler's command line. -/
  | command (note : NoteRequest) (json : Bool)
  /-- Lists and changes profiles. -/
  | profiles (settings create delete activate : Option Text) (json : Bool)
  | help
  | version
  deriving DecidableEq, Repr

/-- An option with a letter. -/
def optionOf (name : String) (letter : Option Char) (kind : OptionKind) : OptionSpec :=
  ⟨name.toList, letter, kind⟩

/-- Options of every command. -/
def commonOptions : List OptionSpec :=
  [optionOf "quiet" (some 'q') .nothing, optionOf "help" (some 'h') .help]

/-- Options in front of a command. -/
def toolOptions : ArgumentSpec :=
  { options := commonOptions ++ [optionOf "version" (some 'V') .version] }

/-- Options of what is done with a note. -/
def noteOptions : List OptionSpec :=
  [optionOf "to" (some 't') .text, optionOf "profile" (some 'p') .text,
    optionOf "config" (some 'c') .path, optionOf "output" (some 'o') .path]

/-- The arguments of `convert`. -/
def convertArguments : ArgumentSpec where
  options := commonOptions ++ noteOptions ++
    [optionOf "vault" none .path, optionOf "stream" none .nothing]
  paths := 1
  further := true

/-- The arguments of `command`. -/
def commandArguments : ArgumentSpec where
  options := commonOptions ++ noteOptions ++ [optionOf "json" none .nothing]
  paths := 1
  further := true

/-- The arguments of `profiles`. -/
def profilesArguments : ArgumentSpec where
  options := commonOptions ++
    [optionOf "config" (some 'c') .path, optionOf "create" none .text,
      optionOf "delete" none .text, optionOf "activate" none .text, optionOf "json" none .nothing]

/-- The request for a note. -/
def noteRequest (g : Given) : NoteRequest where
  note := g.paths.head?.getD []
  format := (g.value? "to").getD "pdf".toList
  profile := g.value? "profile"
  settings := g.value? "config"
  output := g.value? "output"
  extra := g.further

/-- The request that arguments of a command make; `none` if they are refused. -/
def requestOf (r : Reading) (build : Given → Request) : Option Request :=
  match r with
  | .given g => some (build g)
  | .help => some .help
  | .version => some .version
  | .refused => none

/-- The names of the commands. -/
def commandNames : List String := ["convert", "command", "profiles", "help"]

/-- Whether there is help for the commands that are named: for one, or for the tool itself. -/
def helpKnown (names : List Text) : Bool :=
  match names with
  | [] => true
  | [name] => commandNames.any fun n => n.toList = name
  | _ => false

/-- Reads a command behind the options in front of it. -/
def readCommand? (quiet : Bool) (command : Text) (args : List Text) : Option Request :=
  match String.ofList command with
  | "convert" =>
    requestOf (convertArguments.read args) fun g =>
      .convert (noteRequest g) (g.value? "vault") (g.has "stream") (quiet || g.has "quiet")
  | "command" =>
    requestOf (commandArguments.read args) fun g => .command (noteRequest g) (g.has "json")
  | "profiles" =>
    requestOf (profilesArguments.read args) fun g =>
      .profiles (g.value? "config") (g.value? "create") (g.value? "delete") (g.value? "activate")
        (g.has "json")
  | "help" => if helpKnown args then some .help else none
  | _ => none

/-- The options in front of a command, and the command with its arguments. -/
def splitCommand : List Text → List Text × List Text
  | [] => ([], [])
  | a :: rest =>
    if a.head? = some '-' ∧ a ≠ ['-'] then
      let (front, back) := splitCommand rest
      (a :: front, back)
    else ([], a :: rest)

/-- Reads all arguments; `none` if they are refused. -/
def readRequest? (args : List Text) : Option Request :=
  let (front, back) := splitCommand args
  match toolOptions.read front, back with
  | .given g, command :: args =>
    if front.contains ['-', '-'] then none else readCommand? (g.has "quiet") command args
  | .help, _ => some .help
  | .version, _ => some .version
  | _, _ => none

end NotePress.Cli
