import NotePress.Text.Basic

/-!
# Output formats
-/

namespace NotePress

/-- What a note is exported to. -/
inductive ExportFormat where
  | pdf
  | latex
  | docx
  | odt
  | html
  deriving DecidableEq, Repr

namespace ExportFormat

/-- The name of a format. -/
def name : ExportFormat → Text
  | pdf => "pdf".toList
  | latex => "latex".toList
  | docx => "docx".toList
  | odt => "odt".toList
  | html => "html".toList

/-- The format of a name, whatever its case and the blanks around it; `tex` is a name too. -/
def parse? (t : Text) : Option ExportFormat :=
  let t := Text.lowerAscii t.trim
  if t = "tex".toList then some latex else [pdf, latex, docx, odt, html].find? fun f => f.name = t

/-- What is said of a name that no format has. -/
def unknownMessage (t : Text) : Text := "unknown output format: ".toList ++ Text.lowerAscii t.trim

/-- The extension of output files. -/
def extension : ExportFormat → Text
  | latex => "tex".toList
  | f => f.name

/-- Whether outputs are archives of a word processor, which may follow a reference document. -/
def isArchive (f : ExportFormat) : Bool := f = docx || f = odt

/-- Whether TeX in a note reaches the output. -/
def keepsTex (f : ExportFormat) : Bool := f = pdf || f = latex

end ExportFormat

end NotePress
