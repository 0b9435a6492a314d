import NotePress.CommandLine
import NotePress.Disk.Path
import NotePress.Format
import NotePress.Number.Layout
import NotePress.Profile.Basic

/-!
# The compiler's command line

The arguments depend on the profile, the format, the files and the caller's own arguments, and on
nothing else. Their order is fixed, since filters run in the order they are given: the files, what
the format needs, filters, captions, variables of the template, and at the end the arguments that
are passed through.
-/

namespace NotePress

/-- The files of a compiler run. -/
structure CompilerFiles where
  /-- The document; none if it is sent to the compiler's input. -/
  input : Option Text
  /-- What is put ahead of the document. -/
  preamble : Text
  output : Text
  /-- Where the compiler looks for files, if the profile does not say. -/
  resources : Option Text := none
  deriving DecidableEq, Repr

namespace CompilerFiles

/-- The directory of the document, if its path has one. -/
def inputDirectory (f : CompilerFiles) : Option Text :=
  (f.input.bind Path.parent?).filter (· ≠ [])

/-- The files with the document sent to the compiler's input; the directory of the document stays
the one to look for files in. -/
def sentToInput (f : CompilerFiles) : CompilerFiles :=
  { f with input := none, resources := f.resources.or f.inputDirectory }

/-- Where the compiler looks for files under a profile. -/
def resourcePath (f : CompilerFiles) (p : Profile) : Text :=
  (p.resourcePath.or (f.resources.or f.inputDirectory)).getD ['.']

end CompilerFiles

namespace Compiler

/-- What the source of a PDF file is read as. -/
def pdfReader : Text :=
  "markdown+raw_tex+tex_math_dollars+implicit_figures+link_attributes+fenced_code_attributes".toList

/-- What the source is read as. -/
def reader (p : Profile) (format : ExportFormat) : Text :=
  if format = .pdf then
    if p.advancedCommands then pdfReader ++ "+latex_macros".toList else pdfReader
  else "markdown".toList

/-- The engine and the writer of a format. -/
def writerArguments (p : Profile) : ExportFormat → List Text
  | .pdf => ("--pdf-engine=".toList ++ p.latexEngine) ::
      if p.makesSlides then ["--to=beamer".toList] else []
  | .latex => [(if p.makesSlides then "--to=beamer" else "--to=latex").toList]
  | _ => []

/-- The argument of a filter; the compiler runs Lua filters itself. -/
def filterArgument (path : Text) : Text :=
  if (Path.extension? path).any fun e => Text.sameAscii e "lua".toList then
    "--lua-filter=".toList ++ path
  else "--filter=".toList ++ path

/-- The metadata that caption titles and prefixes of references are set by. -/
def labelArguments (l : Labels) : List Text :=
  [("figureTitle", l.figureTitle), ("tableTitle", l.tableTitle), ("listingTitle", l.listingTitle),
    ("equationTitle", l.equationTitle), ("figPrefix", l.figurePrefix), ("tblPrefix", l.tablePrefix),
    ("lstPrefix", l.listingPrefix), ("eqnPrefix", l.equationPrefix)].flatMap fun e =>
      ["-M".toList, e.1.toList ++ '=' :: e.2]

/-- A variable of the template, if there is a value. -/
def variableOf (name : String) (value : Option Text) : List Text :=
  match value with
  | some v => ["-V".toList, name.toList ++ '=' :: v]
  | none => []

/-- The variables of the template. -/
def variableArguments (p : Profile) : List Text :=
  variableOf "geometry:margin" (if p.marginsEnabled then some p.margin else none) ++
  variableOf "pagestyle" (if p.pageNumbers then none else some "empty".toList) ++
  variableOf "image-scale"
    (if p.scaleImages then some (NumberLayout.argument.write single p.imageScale) else none) ++
  variableOf "fontsize" (p.fontSize.bind Text.unlessBlank?) ++
  variableOf "documentclass" p.documentClass.unlessBlank? ++
  variableOf "classoption" (p.classOptions.bind Text.unlessBlank?)

/-- The option that names a reference document. -/
def referenceOption : Text := "--reference-doc".toList

/-- Leaves out reference documents, given behind their option or in it. -/
def dropReferences : List Text → List Text
  | [] => []
  | a :: rest =>
    if a = referenceOption then
      match rest with
      | [] => []
      | _ :: rest => dropReferences rest
    else if Text.startsWith a (referenceOption ++ ['=']) then dropReferences rest
    else a :: dropReferences rest

/-- The arguments that are passed through; only archives take a reference document. -/
def passThrough (format : ExportFormat) (args : List Text) : List Text :=
  if format.isArchive then args else dropReferences args

/-- The arguments in front of those that are passed through. -/
def ownArguments (p : Profile) (format : ExportFormat) (files : CompilerFiles) : List Text :=
  files.input.toList ++
  ["--from=".toList ++ reader p format, "--include-in-header=".toList ++ files.preamble,
    "--output".toList, files.output] ++
  writerArguments p format ++
  p.filters.map filterArgument ++
  ["--listings".toList, "--resource-path=".toList ++ files.resourcePath p] ++
  (if p.crossref then ["--filter=".toList ++ p.crossrefFilter] else []) ++
  labelArguments p.labels ++
  variableArguments p ++
  ["--highlight-style=tango".toList]

/-- The compiler's command line for a profile, a format, files and the caller's arguments. -/
def invocation (p : Profile) (format : ExportFormat) (files : CompilerFiles) (extra : List Text) :
    Invocation where
  command := p.compiler
  arguments :=
    ownArguments p format files ++ passThrough format (p.extraArgs ++ extra) ++
      if p.standalone then ["--standalone".toList] else []

end Compiler

end NotePress
