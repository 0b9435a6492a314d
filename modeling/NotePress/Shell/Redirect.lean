import NotePress.Shell.Expansion

/-!
# Redirections

What a redirection names is expanded first. Then files are opened and streams led elsewhere, in
order, up to the first one that cannot be. The streams that a command redirects are put back when it
ends; what it does to others lasts.
-/

namespace NotePress.Shell

/-- A redirection with what it names expanded. -/
inductive Redirected where
  | file (stream : Nat) (mode : OpenMode) (path : Text)
  /-- To where another stream goes; none closes it. -/
  | duplicate (stream : Nat) (target : Option Nat)
  /-- From a here-document, which is expanded when the stream is redirected. -/
  | here (stream : Nat) (text : Word)

/-- The stream that a word names: a digit, or a dash for none. -/
def streamOf? (t : Text) : Option (Option Nat) :=
  match t with
  | ['-'] => some none
  | [c] => if c.isDigit then some (some (c.toNat - '0'.toNat)) else none
  | _ => none

/-- Expands what a redirection names. -/
def expandRedirection (output : Command → Action Text) : Redirection → Action Redirected
  | .file stream mode w => return .file stream mode (← expandWhole output .atStart w)
  | .duplicate stream w => do
    match streamOf? (← expandWhole output .atStart w) with
    | some target => return .duplicate stream target
    | none => Action.fail SyntaxFault.streamNumber.message
  | .here stream document => do
    match (← get).documents.lookup document with
    | some w => return .here stream w
    | none => return .here stream []

/-- Expands what redirections name. -/
def expandRedirections (output : Command → Action Text) :
    List Redirection → Action (List Redirected)
  | [] => return []
  | r :: rest => do
    let r ← expandRedirection output r
    return r :: (← expandRedirections output rest)

namespace Redirected

/-- The stream that is redirected. -/
def stream : Redirected → Nat
  | file stream _ _ => stream
  | duplicate stream _ => stream
  | here stream _ => stream

/-- Leads a stream to where another one goes; complains if that one is closed. A stream that is put
back later is closed first, so that a complaint about the stream of messages is lost. -/
def duplicateTo (restores : Bool) (stream target : Nat) : Action Bool := do
  let s ← get
  if stream = target then return true
  else
    match s.streams.lookup target with
    | some index =>
      set { s with streams := s.streams.direct stream index }
      return true
    | none =>
      if restores then set { s with streams := s.streams.close stream }
      Action.complain (Text.ofNat target ++ ": Bad file descriptor".toList)
      return false

/-- Redirects a stream; complains if it cannot be. -/
def apply (output : Command → Action Text) (restores : Bool) : Redirected → Action Bool
  | .file stream mode path => do
    let s ← get
    match s.openPath mode path with
    | .ok (index, world) =>
      set { s with world, streams := s.streams.direct stream index }
      return true
    | .error e =>
      let isKept := mode = .write ∧ s.has 'C' ∧ e = .isADirectory
      Action.complain (openFault (if isKept then .read else mode) path e)
      return false
  | .duplicate stream (some target) => duplicateTo restores stream target
  | .duplicate stream none => do
    modify fun s => { s with streams := s.streams.close stream }
    return true
  | .here stream w => do
    let opened : Action Unit := do
      let t ← expandDocument output w
      modify fun s => s.openStream stream (.source (Octets.toBytes t))
    match ← opened.caught with
    | none => return true
    | some .failed => return false
    | some e => throw e

/-- Redirects streams up to the first one that cannot be, behind those that were before. The exit
code is two then. `restores` says whether they are put back later. -/
def applyAll (output : Command → Action Text) (restores : Bool) (before : List Nat) :
    List Redirected → Action Bool
  | [] => return true
  | r :: rest => do
    if ← r.apply output (restores && !before.contains r.stream) then
      applyAll output restores (r.stream :: before) rest
    else
      Action.finish 2
      return false

end Redirected

/-- Streams of which one is put back to where it led before. -/
def putBack (before now : Streams) (stream : Nat) : Streams :=
  match before.lookup stream with
  | some index => now.direct stream index
  | none => now.close stream

/-- Runs a step and puts the streams back that are redirected for it. -/
def keepingStreams (rs : List Redirected) (a : Action Unit) : Action Unit := do
  let before := (← get).streams
  a.finally_ fun s =>
    { s with streams := rs.foldl (fun now r => putBack before now r.stream) s.streams }

end NotePress.Shell
