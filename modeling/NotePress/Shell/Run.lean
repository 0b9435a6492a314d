import NotePress.Shell.Call
import NotePress.Shell.Launch
import NotePress.Shell.Redirect

/-!
# Running scripts

Commands change the session and end with an exit code. Jumps, errors and signals stop a list of
commands up to where they are met. Parts of a script that run on their own (subshells, the stages of
a pipeline, what a substitution stands for) have a session of their own; those in the background go
on when the script waits for something. A run is given fuel, which bounds the depth of commands and
the rounds of loops.
-/

namespace NotePress.Shell

/-- How a command is run. -/
structure Mode where
  /-- Whether it may fail without ending the script. -/
  tested : Bool := false
  /-- Whether it is the last one of its process, whose place a program may take. -/
  final : Bool := false

/-- How a part of a command is run that is not the last one. -/
def Mode.inner (m : Mode) : Mode := { m with final := false }

/-! ### Loops -/

/-- How the body of a loop ended. -/
inductive Round where
  | ended
  /-- The loop goes on with its next round. -/
  | skipped
  | left
  deriving DecidableEq, Repr

/-- Runs a part of a loop; jumps that leave more than this loop go on. -/
def roundOf (a : Action Unit) : Action Round := do
  match ← a.caught with
  | none => return .ended
  | some (.break_ n) => if n ≤ 1 then return .left else throw (.break_ (n - 1))
  | some (.continue_ n) => if n ≤ 1 then return .skipped else throw (.continue_ (n - 1))
  | some e => throw e

/-- Runs a loop, which ends with an exit code. -/
def inLoop (a : Action Nat) : Action Unit := do
  modify fun s => { s with loops := s.loops + 1 }
  Action.finally_ (do Action.finish (← a)) fun s => { s with loops := s.loops - 1 }

/-- The body of the first clause that has a pattern which a value matches. -/
def clauseFor? (output : Command → Action Text) (value : Text) :
    List (List Word × Command) → Action (Option Command)
  | [] => return none
  | (patterns, body) :: rest => do
    if ← matchesOne patterns then return some body else clauseFor? output value rest
where
  matchesOne : List Word → Action Bool
    | [] => return false
    | w :: rest => do
      let pattern := patternOf (← expandLetters output .atStart w)
      if matchesAll pattern value then return true else matchesOne rest

/-! ### Commands -/

/-- Ends the script if it is to end at the first command that fails, unless this one is a test. -/
def checkExit (tested : Bool) : Action Unit := do
  let s ← get
  if s.has 'e' ∧ !tested ∧ s.status ≠ 0 then throw .exit

/-- Notes the line of the current command. -/
def atLine (line : Nat) : Action Unit := modify fun s => { s with line }

/-- How many functions can run inside each other. -/
def callLimit : Nat := 1000

/-- Whether something is run at signals or at the end. -/
def hasTraps (s : Session) : Bool := s.traps.any fun t => t.2 ≠ []

/-- Starts a command in the background, which reads nothing. -/
def startJob (c : Command) : Action Unit := do
  let place ← Action.claimPlace
  let stages := match c with
    | .pipe stages => stages.length
    | _ => 1
  modify fun s =>
    { s with world := { s.world with lastProcess := s.world.lastProcess + (stages - 1) } }
  let s ← get
  let inner := s.fork
  let inner := inner.openStream 0 { channel := .nothing, reads := true }
  let inner := { inner with ignored := [2, 3] ++ inner.ignored }
  set { s with world := inner.world, lastJob := some inner.process, status := 0 }
  modifyThe Jobs fun jobs => ⟨place, inner.process, stages, .running inner c, false⟩ :: jobs

/-! ### Scripts that are asked for -/

/-- How often the shell says how to leave it, at the end of its input. -/
def reminderLimit : Nat := 50

/-- The lines of a script, each behind what asks for it. -/
def dialogue : (prompts lines : List Text) → Text
  | [], lines => lines.flatten
  | prompts, [] => prompts.flatten
  | p :: prompts, l :: lines => p ++ l ++ dialogue prompts lines

/-- Puts everything back that running functions keep, since none of them runs any more. -/
def unwind : Action Unit := do
  let s ← get
  set { s with frames := [], loops := 0, calls := 0 }
  let _ ← (restoreAll s.frames.flatten).caught

/-- Runs a step, and says whether it came to its end without an error. -/
def recovered (a : Action Unit) : Action Bool := do
  match ← a.caught with
  | none => return true
  | some .failed =>
    unwind
    return false
  | some .interrupted =>
    unwind
    return false
  | some e => throw e

/-- Runs a part of a script, and says whether the script goes on behind it. An error ends the script
unless that is asked for line by line; then what was read of it is left out. -/
def runPart (a : Action Unit) (i : Input) : Action Bool := do
  if i.origin.isMain && (← get).isAsking then recovered a
  else
    a
    return true

/-! ### Running -/

mutual
/-- Runs a command, takes the signals that came in while it ran, and ends the script if it is to end
at the first command that fails. -/
def exec (k : Kit) : Nat → Mode → Command → Action Unit
  | 0, _, _ => throw .exhausted
  | fuel + 1, m, c => do
    if (← get).has 'n' then return ()
    let mayEnd ← execPart k fuel m c
    runPending k fuel
    if mayEnd then checkExit m.tested

/-- Runs a command, and says whether it is one at which the script may end. -/
def execPart (k : Kit) : Nat → Mode → Command → Action Bool
  | 0, _, _ => throw .exhausted
  | fuel + 1, m, c => do
    match c with
    | .nothing => return false
    | .simple line assignments words redirections =>
      runSimple k fuel m line assignments words redirections
      return true
    | .redirected line c rs =>
      atLine line
      let rs ← expandRedirections (outputOf k fuel) rs
      keepingStreams rs do
        if ← Redirected.applyAll (outputOf k fuel) true [] rs then exec k fuel m.inner c
        else checkExit m.tested
      return false
    | .sequence a b =>
      exec k fuel m.inner a
      exec k fuel m b
      return false
    | .both a b =>
      exec k fuel { tested := true } a
      if (← get).status = 0 then exec k fuel m b
      return false
    | .either a b =>
      exec k fuel { tested := true } a
      if (← get).status ≠ 0 then exec k fuel m b
      return false
    | .negated c =>
      exec k fuel { tested := true } c
      Action.finish (if (← get).status = 0 then 1 else 0)
      return false
    | .pipe stages =>
      let _ ← Action.claimPlace
      runStages k fuel m.tested none stages
      return true
    | .subshell line c rs =>
      atLine line
      let rs ← expandRedirections (outputOf k fuel) rs
      let body := do
        if ← Redirected.applyAll (outputOf k fuel) false [] rs then
          exec k fuel { m with final := true } c
      if m.final ∧ !hasTraps (← get) then
        body
        throw .exit
      let _ ← Action.claimPlace
      settle (← runApart k fuel id body)
      return true
    | .background line c =>
      atLine line
      startJob c
      return true
    | .choose condition yes no =>
      exec k fuel { tested := true } condition
      if (← get).status = 0 then exec k fuel m yes
      else
        match no with
        | .nothing => Action.finish 0
        | no => exec k fuel m no
      return false
    | .loop until_ condition body =>
      inLoop (repeatFrom k fuel m.inner until_ condition body 0)
      return false
    | .each line name words body =>
      atLine line
      let values ← match words with
        | some ws => ws.flatMapM (expandFields (outputOf k fuel))
        | none => pure (← get).arguments
      inLoop (eachFrom k fuel m.inner name body values 0)
      return false
    | .cases line subject clauses =>
      atLine line
      let value ← expandWhole (outputOf k fuel) .atStart subject
      match ← clauseFor? (outputOf k fuel) value clauses with
      | some .nothing => Action.finish 0
      | some body => exec k fuel m body
      | none => Action.finish 0
      return false
    | .define name body =>
      modify fun s =>
        { s with
          functions := (name, body) :: s.functions.filter (·.1 ≠ name), status := 0,
          located := s.located.filter (·.1 ≠ name) }
      return false

/-- Repeats a loop whose last round ended with an exit code. -/
def repeatFrom (k : Kit) : Nat → Mode → (until_ : Bool) → (condition body : Command) → Nat →
    Action Nat
  | 0, _, _, _, _, _ => throw .exhausted
  | fuel + 1, m, until_, condition, body, status => do
    match ← roundOf (exec k fuel { tested := true } condition) with
    | .left => return status
    | .skipped => repeatFrom k fuel m until_ condition body status
    | .ended =>
      if ((← get).status = 0) = until_ then return status
      else
        match ← roundOf (exec k fuel m body) with
        | .left => return (← get).status
        | _ => repeatFrom k fuel m until_ condition body (← get).status

/-- Runs a body for each of some values. -/
def eachFrom (k : Kit) : Nat → Mode → Text → Command → List Text → Nat → Action Nat
  | 0, _, _, _, _, _ => throw .exhausted
  | _ + 1, _, _, _, [], status => return status
  | fuel + 1, m, name, body, value :: rest, _ => do
    Action.assign name value
    match ← roundOf (exec k fuel m body) with
    | .left => return (← get).status
    | _ => eachFrom k fuel m name body rest (← get).status

/-- Runs a part of a script as a process of its own, up to its end. -/
def runApart (k : Kit) : Nat → (Session → Session) → Action Unit → Action Ending
  | 0, _, _ => throw .exhausted
  | fuel + 1, prepare, a => do
    Action.isolated (prepare (← get).fork) (conclude k fuel a)

/-- Runs a script, then what is to be run at its end, then what is left in the background. -/
def conclude (k : Kit) : Nat → Action Unit → Action Unit
  | 0, _ => throw .exhausted
  | fuel + 1, a => do
    let last ← match ← a.caught with
      | some .exhausted => throw .exhausted
      | some (.killed n) => pure (some (.killed n))
      | _ => (runLast k fuel).caught
    let status := (← get).status
    runJobs k fuel
    Action.finish status
    match last with
    | none => return ()
    | some e => throw e

/-- Runs what is to be run at the end of a script. The exit code stays unless it exits itself, or
fails. -/
def runLast (k : Kit) : Nat → Action Unit
  | 0 => throw .exhausted
  | fuel + 1 => do
    let s ← get
    match s.traps.lookup 0 with
    | none => return ()
    | some t =>
      set { s with traps := s.traps.filter (·.1 ≠ 0), trapped := some s.status, loops := 0 }
      let run := do
        let _ ← runText k fuel {} false { rest := t }
      match ← run.caught with
      | some .exit => return ()
      | some .failed => return ()
      | some (.killed n) => throw (.killed n)
      | some .exhausted => throw .exhausted
      | _ => Action.finish s.status

/-- Takes the signals that were sent, and runs what is to be run at those that came in. The exit
code stays. -/
def runPending (k : Kit) : Nat → Action Unit
  | 0 => throw .exhausted
  | fuel + 1 => do
    Signal.takeSent
    let s ← get
    match s.pending with
    | [] => return ()
    | n :: rest =>
      let status := s.trapped.getD s.status
      set { s with pending := rest, trapped := some status }
      let run := do
        let _ ← runText k fuel {} false { rest := (s.traps.lookup n).getD [] }
      let stop ← run.caught
      modify fun after => { after with trapped := s.trapped }
      match stop with
      | none =>
        Action.finish s.status
        runPending k fuel
      | some (.break_ n) =>
        Action.finish s.status
        throw (.break_ n)
      | some (.continue_ n) =>
        Action.finish s.status
        throw (.continue_ n)
      | some e => throw e

/-- Runs a job in the background to its end, if that is not done yet. -/
def runJob (k : Kit) : Nat → (process : Nat) → Action Unit
  | 0, _ => throw .exhausted
  | fuel + 1, process => do
    let state? : Option JobState := ((← getThe Jobs).ofProcess? process).map (·.state)
    match state? with
    | some (.running session c) =>
      let body := do
        Signal.takeSent
        exec k fuel { final := true } c
      let ending ← Action.isolated (session.resume (← get)) (conclude k fuel body)
      modifyThe Jobs fun jobs => jobs.update process fun j => { j with state := .done ending }
      Signal.takeSent
      Signal.raise Signal.child
    | _ => return ()

/-- What a command writes. Its exit code is kept for commands that are only assignments. -/
def outputOf (k : Kit) : Nat → Command → Action Text
  | 0, _ => throw .exhausted
  | fuel + 1, c => do
    let _ ← Action.claimPlace
    let before ← get
    let index := before.world.openings.size
    settle (← runApart k fuel (fun s => s.openStream 1 .sink) (exec k fuel { final := true } c))
    let s ← get
    set { s with substituted := s.status, status := before.status }
    return Octets.ofBytes (s.world.writtenTo index)

/-- Runs the stages of a pipeline one after the other; each reads what the one before wrote. -/
def runStages (k : Kit) : Nat → (tested : Bool) → Option (List UInt8) → List Command → Action Unit
  | 0, _, _, _ => throw .exhausted
  | _ + 1, _, _, [] => return ()
  | fuel + 1, tested, input, c :: rest => do
    let opened := fun (s : Session) =>
      match input with
      | some bytes => s.openStream 0 (.source bytes)
      | none => s
    let stage := exec k fuel { tested, final := true } c
    match rest with
    | [] => settle (← runApart k fuel opened stage)
    | rest =>
      let before := opened (← get)
      let index := before.world.openings.size
      let status := before.status
      settle (← runApart k fuel (fun s => (opened s).openStream 1 .sink) stage)
      Action.finish status
      runStages k fuel tested (some ((← get).world.writtenTo index)) rest

/-- The value of a variable, expanded as if it stood in a here-document if it can be. -/
def prompt (k : Kit) : Nat → (name : String) → Action Text
  | 0, _ => throw .exhausted
  | fuel + 1, name => do
    let t := ((← get).get? name.toList).getD []
    match promptWord? t with
    | some w => expandDocument (outputOf k fuel) w
    | none => return t

/-- Writes a command that is about to run, if commands are to be shown, to what was open before it
was redirected. -/
def trace (k : Kit) : Nat → (index : Option Nat) → List Text → Action Unit
  | 0, _, _ => throw .exhausted
  | fuel + 1, index, words => do
    let s ← get
    if s.has 'x' then
      modify fun s => { s with options := s.options.filter (· ≠ 'x') }
      let shown ← prompt k fuel "PS4"
      modify fun after => { after with options := s.options, substituted := s.substituted }
      let t := shown ++ Text.join [' '] words ++ ['\n']
      modify fun s => ((index.bind fun i => s.writeTo? i t)).getD s

/-- Runs a simple command. -/
def runSimple (k : Kit) : Nat → Mode → (line : Nat) → List (Text × Word) → List Word →
    List Redirection → Action Unit
  | 0, _, _, _, _, _ => throw .exhausted
  | fuel + 1, m, line, assignments, words, redirections => do
    modify fun s => { s with line, substituted := 0 }
    let output := outputOf k fuel
    let fields ← expandWords output words []
    let s ← get
    let call := unwrap s (fields.length + 1) ⟨fields, false, false⟩
    let called := call.words
    let target := targetOf s call.wrapped called
    let messages := s.streams.lookup 2
    let redirections ← expandRedirections output redirections
    let isReplaced := called.head? = some "exec".toList
    let start := fun (isLocal : Bool) => do
      let exported := isLocal || (isReplaced && 1 < called.length)
      let made ← assignEach output isLocal exported assignments
      trace k fuel messages (made ++ fields)
    let body := do
      if ← Redirected.applyAll output true [] redirections then
        match target, called with
        | .function function, _ :: args =>
          withFrame do
            start true
            callFunction k fuel m.inner function args
        | .builtin true, name :: args =>
          start false
          runBuiltin k fuel m.inner true name args
        | .builtin false, name :: args =>
          withFrame do
            start true
            runBuiltin k fuel m.inner false name args
        | .program, name :: args =>
          withFrame do
            start true
            if startable k (← get) name then runJobs k fuel
            let inPlace := m.final && !hasTraps (← get)
            match ← runProgram k call.usual inPlace name args with
            | some e => if inPlace then endAs e else settle e
            | none => return ()
        | _, _ =>
          start false
          modify fun s => s.finish s.substituted
      else
        match target with
        | .builtin true => throw .failed
        | _ => return ()
    if isReplaced then body else keepingStreams redirections body

/-- Runs all that waits in the background, in the order in which it was started. -/
def runJobs (k : Kit) : Nat → Action Unit
  | 0 => throw .exhausted
  | fuel + 1 => do
    for job in (← getThe Jobs).reverse do
      runJob k fuel job.process

/-- Runs a function with its arguments. -/
def callFunction (k : Kit) : Nat → Mode → Command → List Text → Action Unit
  | 0, _, _, _ => throw .exhausted
  | fuel + 1, m, body, args => do
    let s ← get
    if callLimit ≤ s.calls then
      Action.fail ("Maximum function recursion depth (".toList ++ Text.ofNat callLimit ++
        ") reached".toList)
    set { s with
      arguments := args, calls := s.calls + 1, loops := 0, optionIndex := 1, optionPlace := 0 }
    let stop ← (exec k fuel m body).caught
    modify fun after =>
      { after with
        arguments := s.arguments, calls := s.calls, loops := s.loops, optionIndex := s.optionIndex,
        optionPlace := s.optionPlace }
    match stop with
    | none => return ()
    | some .return_ => return ()
    | some e => throw e

/-- Runs a command of the shell. An error ends the script only if the command is special. -/
def runBuiltin (k : Kit) : Nat → Mode → (special : Bool) → (name : Text) → List Text → Action Unit
  | 0, _, _, _, _ => throw .exhausted
  | fuel + 1, m, special, name, args => do
    let outer := (← get).command
    modify fun s => { s with command := some name }
    let run := do
      match String.ofList name with
      | "eval" => runWords k fuel m args
      | "." => runFile k fuel m args
      | "exec" => replace k fuel args
      | "wait" => Action.finish (← awaitJobs k fuel (← Builtin.operands args))
      | _ =>
        match Builtin.table k.isProgram name with
        | some f => Action.finish (← Action.checkWritten (← f args))
        | none => Action.finish 127
    let stop ← run.caught
    modify fun s => { s with command := outer, unwritten := false }
    match stop with
    | none => return ()
    | some .failed => if special then throw .failed else return ()
    | some e => throw e

/-- Runs arguments as the text of a script. -/
def runWords (k : Kit) : Nat → Mode → List Text → Action Unit
  | 0, _, _ => throw .exhausted
  | fuel + 1, m, args => do
    if ← runText k fuel m false { rest := Text.join [' '] args } then return ()
    else Action.finish 0

/-- Runs the text of a file. -/
def runFile (k : Kit) : Nat → Mode → List Text → Action Unit
  | 0, _, _ => throw .exhausted
  | fuel + 1, m, args => do
    match ← Builtin.operands args with
    | [] => Action.finish 0
    | name :: _ =>
      let s ← get
      match scriptPath? s name with
      | none => Action.fail (name ++ ": not found".toList)
      | some path =>
        match readPath? s path with
        | .error e => Action.fail (openFault .read path e)
        | .ok text =>
          modify fun s => { s with command := some path }
          let run := do
            if ← runText k fuel m false { rest := text, origin := .file } then return ()
            else Action.finish 0
          match ← run.caught with
          | none => return ()
          | some .return_ => return ()
          | some e => throw e

/-- Runs a program in place of the script. -/
def replace (k : Kit) : Nat → List Text → Action Unit
  | 0, _ => throw .exhausted
  | fuel + 1, args => do
    match args with
    | [] => Action.finish 0
    | name :: args =>
      if startable k (← get) name then runJobs k fuel
      match ← runProgram k false true name args with
      | some e => endAs e
      | none =>
        if !name.contains '/' ∧ Builtin.isInPath (← get) name then Action.finish 126
        throw .exit

/-- Waits for the jobs of some processes, one after the other, up to the first signal that comes in
for which something is to be run; that signal is given. -/
def awaitEach (k : Kit) : Nat → List Nat → Action (Option Nat)
  | 0, _ => throw .exhausted
  | _ + 1, [] => return none
  | fuel + 1, process :: rest => do
    runJob k fuel process
    match (← get).pending with
    | n :: _ => return some n
    | [] =>
      modifyThe Jobs fun jobs => jobs.update process fun j => { j with waited := true }
      awaitEach k fuel rest

/-- Waits for commands in the background: for all, or for some. -/
def awaitJobs (k : Kit) : Nat → List Text → Action Nat
  | 0, _ => throw .exhausted
  | fuel + 1, args => do
    match args with
    | [] =>
      let signal ← awaitEach k fuel ((← getThe Jobs).reverse.map (·.process))
      return (signal.map (128 + ·)).getD 0
    | t :: rest =>
      let jobs ← getThe Jobs
      let job? ← if t.head? = some '%' then some <$> Builtin.jobNamed t
        else (fun n => jobs.ofProcess? n) <$> Action.number t
      let code ← match job? with
        | none => pure 127
        | some job =>
          match ← awaitEach k fuel [job.process] with
          | some n => return 128 + n
          | none =>
            let ended := ((← getThe Jobs).ofProcess? job.process).bind (·.ending?)
            if job.ending?.isNone then
              match ended with
              | some e => Signal.report e
              | none => pure ()
            pure ((ended.map (·.code)).getD 0)
      if rest = [] then return code else awaitJobs k fuel rest

/-- Shows the lines of a script that were read, if scripts are to be shown, and what asks for a
command and for more of it, if the script is asked for. -/
def showRead (k : Kit) : Nat → Input → (unread : Text) → (more : Nat) → Action Unit
  | 0, _, _, _ => throw .exhausted
  | fuel + 1, i, unread, more => do
    let s ← get
    let lines := if i.origin ≠ .argument ∧ s.has 'v' then i.linesRead unread else []
    let prompts ←
      if i.origin.isMain && s.isAsking then do
        let first ← prompt k fuel "PS1"
        let next ← if more = 0 then pure [] else prompt k fuel "PS2"
        pure (first :: List.replicate more next)
      else pure []
    Action.note (dialogue prompts lines)

/-- Notes that a script is at its end; on demand only a command leaves it, or enough reminders. -/
def leaveText (k : Kit) : Nat → Input → (reminders : Nat) → Action Unit
  | 0, _, _ => throw .exhausted
  | fuel + 1, i, reminders => do
    showRead k fuel i [] 0
    let s ← get
    if !i.origin.isMain then return ()
    else if !s.has 'I' then
      if s.isAsking then Action.note ['\n']
    else
      match reminders with
      | 0 => return ()
      | reminders + 1 =>
        Action.note "\nUse \"exit\" to leave shell.\n".toList
        leaveText k fuel { i with rest := [] } reminders

/-- Runs the text of a script, line by line, and says whether there was anything to run. -/
def runText (k : Kit) : Nat → Mode → (ran : Bool) → Input → Action Bool
  | 0, _, _, _ => throw .exhausted
  | fuel + 1, m, ran, i => do
    let s ← get
    let breaksIn := fun (unread : Text) => (i.textRead unread).count '\n'
    let ended := { i with rest := [], returned := some .finish }
    match { i with nextDocument := s.nextDocument, aliases := s.aliases }.read with
    | .finished =>
      -- the input may be another one by now
      let more := if i.origin = .input then (s.unread? 0).getD [] else []
      if more ≠ [] then
        set (s.advance 0 more.length)
        runText k fuel m ran { rest := withoutNulls more, line := i.line, origin := .input }
      else
        leaveText k fuel i reminderLimit
        return ran
    | .refused e =>
      showRead k fuel i e.unread (breaksIn e.unread)
      atLine e.line
      let _ ← runPart (Action.fail e.fault.message) i
      runText k fuel m true ended
    | .command c rest =>
      modify fun s =>
        { s with documents := rest.documents ++ s.documents, nextDocument := rest.nextDocument }
      let rest := { rest with documents := [] }
      showRead k fuel i rest.rest (breaksIn rest.rest - if rest.isAtEnd then 0 else 1)
      match c with
      | none => runText k fuel m ran rest
      | some c =>
        let goesOn ← runPart (exec k fuel (if rest.isAtEnd then m else m.inner) c) i
        runText k fuel m true (if goesOn then rest else ended)
end

end NotePress.Shell
