import NotePress.Cli.Failure
import NotePress.Cli.Request
import NotePress.Conversion.Basic
import NotePress.Collection.Vault
import NotePress.Store.Event
import NotePress.Store.Persistence

/-!
# The command line tool

Notes of a vault are converted, the compiler's command line is shown, and profiles are listed and
changed. What the tool finds around it is a value, so an answer depends on the arguments, the
surroundings and the files, and on nothing else.
-/

namespace NotePress.Cli

/-- What the tool finds around it. -/
structure Surroundings (σ : Type) where
  /-- The current directory. -/
  here : Text
  /-- The directory for temporary files. -/
  temporary : Text
  /-- The compiler that the environment names. -/
  compilerSetting : Option Text
  /-- The path of a program, looked for by its name. -/
  pathOf? : Disk → Text → Option Text
  run : Runner σ
  /-- The names of the next temporary files. -/
  workspace : Workspace

/-- What the tool prints, and its exit code. -/
structure Answer where
  code : Nat := 0
  output : Text := []
  messages : Text := []
  deriving DecidableEq, Repr

/-- What a step of the tool gives, or the failure that ends it. -/
abbrev Step (α : Type) := Except Failure α

/-- The answer of a failure, behind some messages. -/
def failed (messages : Text) (f : Failure) : Answer := ⟨1, [], messages ++ f.render⟩

/-- The variable that names the compiler. -/
def compilerVariable : String := "VAULT_EXPORT_PANDOC"

/-! ### Settings -/

/-- The output format of a name. -/
def formatOf (name : Text) : Step ExportFormat :=
  match ExportFormat.parse? name with
  | some f => .ok f
  | none => .error ⟨ExportFormat.unknownMessage name, []⟩

/-- The store of a settings file, or a fresh one. -/
def storeOf (here : Text) (d : Disk) (settings : Option Text) : Store :=
  match settings with
  | some path => Store.load d (Path.join here path)
  | none => .fresh

/-- The profile of a name, or the active one. -/
def profileOf (s : Store) (name : Option Text) : Step Profile :=
  match name with
  | none => .ok s.activeProfile
  | some name =>
    match s.get? name with
    | some p => .ok p
    | none => .error
        ⟨"Unknown profile '".toList ++ name ++ "' (available: ".toList ++
          Text.join ", ".toList s.names ++ [')'], []⟩

/-- A profile with the compiler that the environment names, or that is found, if it names none. -/
def withCompiler {σ : Type} (u : Surroundings σ) (d : Disk) (p : Profile) : Profile :=
  let named := u.compilerSetting.filter fun path => d.isFile (Path.join u.here path)
  { p with pandocPath := p.pandocPath.or (named.or (u.pathOf? d "pandoc".toList)) }

/-- Where the output of a note goes. -/
def outputOf (note : Text) (output : Option Text) (format : ExportFormat) : Text :=
  output.getD (Path.withExtension note format.extension)

/-! ### Showing the compiler's command line -/

/-- A command line as JSON. -/
def invocationData (i : Invocation) : Data :=
  .map [(.text "command".toList, .text i.command),
    (.text "args".toList, .list (i.arguments.map .text))]

/-- Shows the compiler's command line for a note. -/
def showCommand {σ : Type} (u : Surroundings σ) (d : Disk) (r : NoteRequest) (json : Bool) :
    Step Answer := do
  let format ← formatOf r.format
  let profile ← profileOf (storeOf u.here d r.settings) r.profile
  let preamble := Path.join (Path.join u.temporary "vault-export".toList) "preamble.tex".toList
  let files : CompilerFiles := ⟨some r.note, preamble, outputOf r.note r.output format, none⟩
  let i := Compiler.invocation (withCompiler u d profile) format files r.extra
  let shown := if json then Json.writePretty 0 (invocationData i) else CommandLine.render i
  return ⟨0, shown ++ ['\n'], []⟩

/-! ### Converting a note -/

/-- A note in its vault. -/
structure PlacedNote where
  vault : Vault
  id : DocumentId
  path : Text

/-- Finds a note and its vault, which is the note's directory if none is given. -/
def openNote (here : Text) (d : Disk) (note : Text) (vault : Option Text) : Step PlacedNote := do
  let names ← (d.locate (Path.join here note)).mapError fun e =>
    ⟨"Note not found: ".toList ++ note, [e.message]⟩
  let path := Path.ofNames names
  let root ← match vault with
    | some root => pure root
    | none =>
      match Path.parent? path with
      | some root => pure root
      | none => throw ⟨"Note has no parent directory".toList, []⟩
  let v ← (Vault.open? d (Path.join here root)).mapError fun e =>
    ⟨"Failed to open vault: ".toList ++ root, [e.message]⟩
  match v.idAt path with
  | some id => return ⟨v, id, path⟩
  | none => throw ⟨path ++ " is not inside the vault ".toList ++ root, []⟩

/-- A problem on a line of a note. -/
def diagnosticLine (id : DocumentId) (diagnostic : Diagnostic) : Text :=
  id.path ++ ':' :: Text.ofNat diagnostic.line ++ ": ".toList ++ diagnostic.message ++ ['\n']

/-- The texts of what an error comes from, the nearest first. -/
def causesOf : ConversionError → List Text
  | .notStarted _ (.launch command cause) => [(RunError.launch command cause).message, cause]
  | e => e.cause?.toList

/-- The answer of a conversion that failed. -/
def conversionFailure (id : DocumentId) (e : ConversionError) : Answer :=
  match e with
  | .compilerFailed command code messages diagnostics =>
    let reported :=
      if diagnostics = [] then messages.trimEnd ++ ['\n']
      else diagnostics.flatMap (diagnosticLine id)
    failed reported ⟨command ++ " failed with exit code ".toList ++ Text.ofInt code, []⟩
  | e =>
    let advice :=
      if e.blamesProfile then
        ("Check the profile's pandoc path or set " ++ compilerVariable).toList
      else "Conversion failed".toList
    failed [] ⟨advice, e.message :: causesOf e⟩

/-- What a conversion needs to start. -/
structure Start where
  format : ExportFormat
  note : PlacedNote
  profile : Profile
  text : Text

/-- Finds what a conversion needs. -/
def startOf {σ : Type} (u : Surroundings σ) (d : Disk) (r : NoteRequest) (vault : Option Text) :
    Step Start := do
  let format ← formatOf r.format
  let note ← openNote u.here d r.note vault
  let profile ← profileOf (storeOf u.here d r.settings) r.profile
  let text ← (note.vault.read note.id).mapError fun e =>
    ⟨"Failed to read ".toList ++ note.path, [e.message]⟩
  return ⟨format, note, withCompiler u d profile, text⟩

/-- Converts a note. -/
def convert {σ : Type} (u : Surroundings σ) (r : NoteRequest) (vault : Option Text)
    (stream quiet : Bool) (state : σ × Disk) : Answer × σ × Disk :=
  match startOf u state.2 r vault with
  | .error f => (failed [] f, state)
  | .ok start =>
    let workbench : Workbench σ :=
      { collection := start.note.vault.toCollection, run := u.run, here := u.here,
        workspace := u.workspace }
    let options : ConversionOptions :=
      { output := outputOf start.note.path r.output start.format, extra := r.extra, stream }
    let ((outcome, state), _) :=
      workbench.convert .empty start.text start.note.id start.profile start.format options state
    match outcome with
    | .ok o => (⟨0, if quiet then [] else o.output ++ ['\n'], []⟩, state)
    | .error e => (conversionFailure start.note.id e, state)

/-! ### Profiles -/

/-- One line for each profile; the active one is marked. -/
def listing (s : Store) : Text :=
  s.names.flatMap fun name => (if name = s.active then '*' else ' ') :: ' ' :: name ++ ['\n']

/-- The changes that are asked for, in the order they are made. -/
def eventsOf (create delete activate : Option Text) : List StoreEvent :=
  (create.map fun name => .create name none).toList ++ (delete.map .delete).toList ++
    (activate.map .activate).toList

/-- Makes changes one after the other. -/
def applyAll (s : Store) (events : List StoreEvent) : Except StoreError Store :=
  events.foldlM Store.apply s

/-- Changes the profiles of a settings file, and writes it. -/
def changeProfiles (here : Text) (d : Disk) (settings : Option Text) (events : List StoreEvent) :
    Step (Store × Disk) := do
  let s := storeOf here d settings
  match settings with
  | none => throw ⟨"Editing profiles requires --config".toList, []⟩
  | some path =>
    let s ← (applyAll s events).mapError fun e => ⟨e.message, []⟩
    let d ← (s.save d (Path.join here path)).mapError fun e =>
      ⟨"Failed to save ".toList ++ path, [(StoreError.io e).message, e.message]⟩
    return (s, d)

/-- Lists profiles, after they are changed as asked. -/
def profiles (here : Text) (d : Disk) (settings : Option Text) (events : List StoreEvent)
    (json : Bool) : Answer × Disk :=
  let changed :=
    if events.isEmpty then .ok (storeOf here d settings, d)
    else changeProfiles here d settings events
  match changed with
  | .error f => (failed [] f, d)
  | .ok (s, d) => (⟨0, if json then s.toJson ++ ['\n'] else listing s, []⟩, d)

/-! ### Answers -/

/-- The name and the version of the tool. -/
def versionLine : Text := "vault-export 0.1.0\n".toList

/-- How the tool is called. -/
def usage : Text :=
  ("Convert vault notes through pandoc\n\n" ++
    "Usage: vault-export [OPTIONS] <COMMAND>\n\n" ++
    "Commands:\n" ++
    "  convert   Convert a note to an output document\n" ++
    "  command   Print the pandoc command a conversion would run\n" ++
    "  profiles  List or edit export profiles\n" ++
    "  help      Print this message or the help of the given subcommand(s)\n\n" ++
    "Options:\n" ++
    "  -q, --quiet    Only report warnings and errors\n" ++
    "  -h, --help     Print help\n" ++
    "  -V, --version  Print version\n").toList

/-- Does what is asked for. -/
def perform {σ : Type} (u : Surroundings σ) (r : Request) (state : σ × Disk) : Answer × σ × Disk :=
  match r with
  | .version => (⟨0, versionLine, []⟩, state)
  | .help => (⟨0, usage, []⟩, state)
  | .command note json =>
    match showCommand u state.2 note json with
    | .ok a => (a, state)
    | .error f => (failed [] f, state)
  | .convert note vault stream quiet => convert u note vault stream quiet state
  | .profiles settings create delete activate json =>
    let (a, d) := profiles u.here state.2 settings (eventsOf create delete activate) json
    (a, state.1, d)

/-- Answers a call of the tool. -/
def answer {σ : Type} (u : Surroundings σ) (args : List Text) (state : σ × Disk) :
    Answer × σ × Disk :=
  match readRequest? args with
  | some r => perform u r state
  | none => (⟨2, [], "error: the arguments are not understood\n".toList⟩, state)

end NotePress.Cli
