import NotePress.Format
import NotePress.Preamble
import NotePress.Lowering.Pass

/-!
# Prepared notes

A note is made ready for the compiler in two steps: its embeds are expanded, then it is lowered
until nothing changes. The preamble comes from the profile alone.
-/

namespace NotePress

/-- A note ready for the compiler. -/
structure Prepared where
  markdown : Text
  preamble : Preamble
  warnings : List Warning
  deriving DecidableEq

namespace Prepared

/-- Prepares a text that stands in `source`. -/
def of (g : Collection) (c : Cache) (t : Text) (source : DocumentId) (p : Profile)
    (format : ExportFormat) : Prepared × Cache :=
  let (expansion, c) := (Resolver.within g none).expand c t source
  let (outcome, c) := (Lowering.of g p format.keepsTex).lower c expansion.text source
  let unsettled := if outcome.converged then [] else [Warning.notConverged outcome.passes]
  (⟨outcome.text, Preamble.compose p.customHeader p.labels, expansion.warnings ++ unsettled⟩, c)

end Prepared

end NotePress
