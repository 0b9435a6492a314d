import NotePress.Lint

/-!
# Rehearsed runs

A rehearsal plays a list of runs that were written down beforehand, one for each command, whatever
the command is, and notes what it was asked to run and which files it would have seen.
-/

namespace NotePress

/-- How a rehearsed run ends. -/
inductive RehearsedEnd where
  | exits (result : JobResult)
  | notFound
  | launch (cause : Text)
  | io (cause : Text)
  deriving DecidableEq, Repr

/-- A run written down beforehand. -/
structure RehearsedRun where
  /-- What is written to the file that the last argument names, before the run ends. -/
  writes : Option Text := none
  ending : RehearsedEnd := .exits { code := 0 }
  deriving DecidableEq, Repr

/-- A command that was asked for, and the files it was given. -/
structure RehearsedCall where
  job : Job
  document : Option Text
  preamble : Option Text
  deriving DecidableEq, Repr

/-- The runs to come and the calls so far. -/
structure Rehearsal where
  pending : List RehearsedRun
  calls : List RehearsedCall := []
  deriving DecidableEq, Repr

namespace Rehearsal

/-- Whether an argument looks like the path of a document. -/
def isDocumentPath (a : Text) : Bool := Path.isAbsolute a && Text.endsWith a ".md".toList

/-- The text of a file, if it can be read. -/
def content? (d : Disk) (path : Text) : Option Text := (d.readText path).toOption

/-- The document that arguments name, first or last. -/
def document? (d : Disk) (args : List Text) : Option Text :=
  ((args.head?.toList ++ args.getLast?.toList).find? isDocumentPath).bind (content? d)

/-- The preamble that arguments name. -/
def preamble? (d : Disk) (args : List Text) : Option Text :=
  (args.findSome? (Text.dropOpening? "--include-in-header=".toList)).bind (content? d)

/-- Writes a text to the file that the last argument names. -/
def writeTo (d : Disk) (args : List Text) (t : Option Text) : Except AccessError Disk :=
  match t, args.getLast? with
  | some t, some path => d.write path (Text.encode t)
  | _, _ => .ok d

/-- The end of a run of a command. -/
def ended (command : Text) : RehearsedEnd → Except RunError JobResult
  | .exits result => .ok result
  | .notFound => .error (.notFound command)
  | .launch cause => .error (.launch command cause)
  | .io cause => .error (.io cause)

/-- Plays the next run; when none is left, a run ends well and says nothing. A run whose file cannot
be written is none. -/
def runner : Runner Rehearsal := fun job (r, d) =>
  let next := r.pending.head?.getD {}
  let args := job.invocation.arguments
  match writeTo d args next.writes with
  | .error e => (.error (.io e.message), { r with pending := r.pending.tail }, d)
  | .ok d =>
    let call : RehearsedCall := ⟨job, document? d args, preamble? d args⟩
    (ended job.invocation.command next.ending, ⟨r.pending.tail, r.calls ++ [call]⟩, d)

/-- A fixer that appends a text to the file. -/
def appendingFixer (addition : Text) : Fixer Rehearsal := fun path (r, d) =>
  match d.readBytes path with
  | .ok bytes =>
    (.ok (), r, ((d.write path (bytes ++ Text.encode addition)).toOption).getD d)
  | .error _ => (.ok (), r, d)

/-- A fixer that fails. -/
def failingFixer (e : LintFault) : Fixer Rehearsal := fun _ state => (.error e, state)

end Rehearsal

end NotePress
