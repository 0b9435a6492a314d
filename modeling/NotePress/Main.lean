import NotePress.Cli.Basic

/-!
# The program

Reads the files that a request is about, answers it, writes the files that changed, and prints. The
program starts no others: a compiler is found and its command line is shown, but a conversion ends
with the error of a compiler that cannot be launched.
-/

open NotePress

/-- The names of a real path. -/
def namesOf (path : String) : List Text := (path.toList.splitOn '/').filter (· ≠ [])

/-- Adds a directory to a disk, without what is in it. -/
def loadDirectory (path : String) (d : Disk) : IO Disk := do
  try
    let real ← IO.FS.realPath path
    return if ← real.isDir then d.put (namesOf real.toString) .directory else d
  catch _ => return d

/-- Adds what stands at a path, and all below, to a disk; what cannot be read is left out. -/
partial def loadPath (path : String) (d : Disk) : IO Disk := do
  try
    let real ← IO.FS.realPath path
    let names := namesOf real.toString
    if ← real.isDir then
      let mut d := d.put names .directory
      for e in ← real.readDir do
        d ← loadPath e.path.toString d
      return d
    else
      return d.put names (.file (← IO.FS.readBinFile path).toList)
  catch _ => return d

/-- The paths of the files and directories that a request is about. -/
def pathsOf (r : Cli.Request) : List Text :=
  match r with
  | .convert note vault _ _ =>
    note.settings.toList ++
      [vault.getD (((Path.parent? note.note).filter (· ≠ [])).getD ['.']), note.note]
  | .command note _ => note.settings.toList
  | .profiles settings _ _ _ _ => settings.toList
  | _ => []

/-- The first file of a name in some directories. -/
def findFile (name : String) : List String → IO (Option String)
  | [] => return none
  | directory :: rest => do
    try
      let real ← IO.FS.realPath (directory ++ "/" ++ name)
      if ← real.isDir then findFile name rest else return some (directory ++ "/" ++ name)
    catch _ => findFile name rest

/-- Ends every command with an error. -/
def noRunner : Runner Unit := fun job state =>
  (.error (.launch job.invocation.command "other programs cannot be started".toList), state)

def main (args : List String) : IO UInt32 := do
  let args := args.map String.toList
  let here := (← IO.currentDir).toString
  let paths := ((Cli.readRequest? args).map pathsOf).getD []
  let temporary := (← IO.getEnv "TMPDIR").getD "/tmp"
  let setting ← IO.getEnv Cli.compilerVariable
  let searchPath := ((← IO.getEnv "PATH").getD "").toList.splitOn ':'
  let compiler ← findFile "pandoc" (searchPath.map String.ofList)
  let mut before ← loadDirectory temporary (← loadDirectory here ⟨[]⟩)
  for path in (setting.map String.toList).toList ++ paths do
    let path := Path.join here.toList path
    if let some directory := Path.parent? path then
      before ← loadDirectory (String.ofList directory) before
    before ← loadPath (String.ofList path) before
  let surroundings : Cli.Surroundings Unit :=
    { here := here.toList, temporary := temporary.toList,
      compilerSetting := setting.map String.toList,
      pathOf? := fun _ name => if name = "pandoc".toList then compiler.map String.toList else none,
      run := noRunner,
      workspace := ⟨Path.join temporary.toList "vault-export".toList, "document.md".toList⟩ }
  let (answer, _, after) := Cli.answer surroundings args ((), before)
  for (names, bytes) in after.changedFiles before do
    IO.FS.writeBinFile (String.ofList (Path.ofNames names)) ⟨bytes.toArray⟩
  IO.print (String.ofList answer.output)
  IO.eprint (String.ofList answer.messages)
  return answer.code.toUInt32
