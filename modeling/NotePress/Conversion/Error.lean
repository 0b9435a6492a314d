import NotePress.Diagnostic
import NotePress.Process.Basic

/-!
# Errors of conversions

Only the compiler and the temporary files can end a conversion.
-/

namespace NotePress

/-- What was done with the temporary files. -/
inductive TemporaryStep where
  | makingDirectory
  | writingPreamble
  | writingDocument
  | readingDocument
  deriving DecidableEq, Repr

/-- Why a conversion ended without an output. -/
inductive ConversionError where
  /-- The compiler ended with an error. -/
  | compilerFailed (command : Text) (code : Int) (messages : Text) (diagnostics : List Diagnostic)
  /-- The compiler never started. -/
  | notStarted (command : Text) (cause : RunError)
  /-- Talking to the compiler failed. -/
  | io (cause : Text)
  /-- The temporary files could not be used. -/
  | temporaryFile (step : TemporaryStep) (cause : AccessError)
  deriving DecidableEq

/-- The text of a step. -/
def TemporaryStep.describe : TemporaryStep → Text
  | makingDirectory => "creating working directory".toList
  | writingPreamble => "writing preamble".toList
  | writingDocument => "writing intermediate markdown".toList
  | readingDocument => "reading intermediate markdown".toList

namespace ConversionError

/-- Where the first problem is, and how many more there are. -/
def summary : List Diagnostic → Text
  | [] => []
  | [d] => " (line ".toList ++ Text.ofNat d.line ++ [')']
  | d :: rest =>
    " (line ".toList ++ Text.ofNat d.line ++ " and ".toList ++ Text.ofNat rest.length ++
      " more)".toList

/-- The text of an error. -/
def message : ConversionError → Text
  | compilerFailed command code _ diagnostics =>
    command ++ " exited with code ".toList ++ Text.ofInt code ++ summary diagnostics
  | notStarted command cause =>
    "Could not run '".toList ++ command ++ "': ".toList ++ cause.message
  | io cause => "I/O error: ".toList ++ cause
  | temporaryFile step _ => "Temporary file error: ".toList ++ step.describe

/-- The text of what an error came from, if anything is behind it. -/
def cause? : ConversionError → Option Text
  | compilerFailed _ _ _ _ => none
  | notStarted _ cause => some cause.message
  | io cause => some cause
  | temporaryFile _ cause => some cause.message

/-- Whether the compiler never started, so that the profile has to be mended and not the note. -/
def blamesProfile : ConversionError → Bool
  | notStarted _ _ => true
  | _ => false

/-- The problems that a failing compiler reported. -/
def diagnostics : ConversionError → List Diagnostic
  | compilerFailed _ _ _ diagnostics => diagnostics
  | _ => []

end ConversionError

end NotePress
