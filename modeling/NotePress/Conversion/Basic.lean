import NotePress.Conversion.Command
import NotePress.Conversion.Error
import NotePress.Conversion.Prepared
import NotePress.Lint

/-!
# Conversions

A prepared note and its preamble are written to a temporary directory, the note is fixed there if
the profile asks for it, and the compiler runs on what the file holds then. The directory is gone
afterwards, however the conversion ends.
-/

namespace NotePress

/-- The names of a conversion's temporary files. -/
structure Workspace where
  /-- The path of the directory, which is not there yet. -/
  directory : Text
  /-- The name of the document in it. -/
  documentName : Text
  deriving DecidableEq, Repr

/-- What a conversion is asked for beside the profile. -/
structure ConversionOptions where
  /-- Where the output goes; relative to the current directory. -/
  output : Text
  /-- Arguments behind those of the profile. -/
  extra : List Text := []
  /-- Whether the document is sent to the compiler's input. -/
  stream : Bool := false
  /-- Where the compiler runs and looks for files; none means the root of the collection. -/
  directory : Option Text := none
  deriving DecidableEq, Repr

/-- What a conversion works with. -/
structure Workbench (σ : Type) where
  collection : Collection
  run : Runner σ
  /-- Fixes documents in place of the profile's command. -/
  fixer : Option (Fixer σ) := none
  /-- The current directory. -/
  here : Text
  workspace : Workspace

/-- What a conversion that came to its end gives. -/
structure Outcome where
  output : Text
  /-- What the compiler reported without failing. -/
  diagnostics : List Diagnostic
  warnings : List Warning
  invocation : Invocation
  deriving DecidableEq

namespace Workspace

/-- The path of the preamble. -/
def preamble (w : Workspace) : Text := Path.join w.directory "preamble.tex".toList

/-- The path of the document. -/
def document (w : Workspace) : Text := Path.join w.directory w.documentName

/-- Writes the files of a prepared note. -/
def fill (w : Workspace) (prepared : Prepared) (d : Disk) : Except ConversionError Disk := do
  let d ← (d.makeDirectory w.directory).mapError (.temporaryFile .makingDirectory)
  let d ← (d.write w.preamble (Text.encode prepared.preamble.text)).mapError
    (.temporaryFile .writingPreamble)
  (d.write w.document (Text.encode prepared.markdown)).mapError (.temporaryFile .writingDocument)

/-- Removes the directory. -/
def clear (w : Workspace) (d : Disk) : Disk :=
  match d.locate w.directory with
  | .ok names => d.remove names
  | .error _ => d

end Workspace

namespace Workbench

variable {σ : Type}

/-- What fixes documents under a profile. -/
def fixerFor (v : Workbench σ) (p : Profile) : Option (Fixer σ) :=
  if p.lintOnExport then v.fixer.or (p.lintCommand.bind (Fixer.ofCommandLine? v.run)) else none

/-- Fixes the document, if the profile asks for it; what goes wrong becomes a warning. -/
def fix (v : Workbench σ) (p : Profile) (state : σ × Disk) : List Warning × σ × Disk :=
  match v.fixerFor p with
  | none => ([], state)
  | some fixer =>
    match fixer v.workspace.document state with
    | (.ok (), state) => ([], state)
    | (.error e, state) => ([.lintFailed e.message], state)

/-- Where the compiler runs. -/
def directoryFor (v : Workbench σ) (o : ConversionOptions) : Option Text :=
  o.directory.or v.collection.root?

/-- The files of the compiler's run. -/
def filesFor (v : Workbench σ) (o : ConversionOptions) : CompilerFiles :=
  let files : CompilerFiles :=
    ⟨some v.workspace.document, v.workspace.preamble, Path.join v.here o.output, v.directoryFor o⟩
  if o.stream then files.sentToInput else files

/-- The compiler's command line. -/
def invocationFor (v : Workbench σ) (p : Profile) (format : ExportFormat) (o : ConversionOptions) :
    Invocation :=
  Compiler.invocation p format (v.filesFor o) o.extra

/-- The compiler's run, on the files of a disk. -/
def jobFor (v : Workbench σ) (p : Profile) (format : ExportFormat) (o : ConversionOptions)
    (d : Disk) : Except ConversionError Job :=
  let job : Job := { invocation := v.invocationFor p format o, directory := v.directoryFor o }
  if o.stream then
    match d.readBytes v.workspace.document with
    | .ok bytes => .ok { job with input := some bytes }
    | .error e => .error (.temporaryFile .readingDocument e)
  else .ok job

/-- What a run of the compiler means for the conversion. -/
def outcomeOf (i : Invocation) (output : Text) (headerLines : Nat) (warnings : List Warning) :
    Except RunError JobResult → Except ConversionError Outcome
  | .error (.io cause) => .error (.io cause)
  | .error e => .error (.notStarted i.command e)
  | .ok result =>
    let diagnostics := Diagnostic.parse result.messagesText headerLines
    if result.succeeded then .ok ⟨output, diagnostics, warnings, i⟩
    else .error (.compilerFailed i.command result.code result.messagesText diagnostics)

/-- Compiles a prepared note. -/
def compile (v : Workbench σ) (prepared : Prepared) (p : Profile) (format : ExportFormat)
    (o : ConversionOptions) (state : σ × Disk) : Except ConversionError Outcome × σ × Disk :=
  match v.workspace.fill prepared state.2 with
  | .error e => (.error e, state)
  | .ok d =>
    let (warnings, state) := v.fix p (state.1, d)
    match v.jobFor p format o state.2 with
    | .error e => (.error e, state)
    | .ok job =>
      let (result, state) := v.run job state
      (outcomeOf job.invocation (Path.join v.here o.output) prepared.preamble.lineCount
        (prepared.warnings ++ warnings) result, state)

/-- Converts a text that stands in `source`. -/
def convert (v : Workbench σ) (c : Cache) (t : Text) (source : DocumentId) (p : Profile)
    (format : ExportFormat) (o : ConversionOptions) (state : σ × Disk) :
    (Except ConversionError Outcome × σ × Disk) × Cache :=
  let (prepared, c) := Prepared.of v.collection c t source p format
  let (outcome, s, d) := v.compile prepared p format o state
  ((outcome, s, v.workspace.clear d), c)

end Workbench

end NotePress
