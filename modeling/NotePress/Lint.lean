import NotePress.Process.Basic

/-!
# Fixing a document before it is compiled

A fixer changes a file in place. The usual one is a command line from the profile, run in the file's
directory with the file as its last argument.
-/

namespace NotePress

/-- Why a file could not be fixed. -/
inductive LintFault where
  /-- The command ended with an error. -/
  | failed (command : Text) (code : Int) (messages : Text)
  /-- The command could not be run. -/
  | notRun (cause : RunError)
  deriving DecidableEq, Repr

/-- The text of an error. -/
def LintFault.message : LintFault → Text
  | .failed command code messages =>
    command ++ " exited with code ".toList ++ Text.ofInt code ++ ": ".toList ++ messages
  | .notRun cause => cause.message

/-- Changes the file of a path. -/
abbrev Fixer (σ : Type) := Text → σ × Disk → Except LintFault Unit × σ × Disk

/-- The command that fixes a file. -/
def lintJob (i : Invocation) (path : Text) : Job where
  invocation := { i with arguments := i.arguments ++ [path] }
  directory := (Path.parent? path).filter (· ≠ [])

/-- Fixes files by a command. -/
def Fixer.ofInvocation {σ : Type} (run : Runner σ) (i : Invocation) : Fixer σ := fun path state =>
  match run (lintJob i path) state with
  | (.error e, state) => (.error (.notRun e), state)
  | (.ok result, state) =>
    if result.succeeded then (.ok (), state)
    else (.error (.failed i.command result.code result.messagesText.trim), state)

/-- Fixes files by a command line; a blank one is no fixer. -/
def Fixer.ofCommandLine? {σ : Type} (run : Runner σ) (line : Text) : Option (Fixer σ) :=
  (CommandLine.parse? line).map (ofInvocation run)

end NotePress
