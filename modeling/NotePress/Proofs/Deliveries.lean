import NotePress.Process.Machine
import NotePress.Process.Rehearsal
import NotePress.Proofs.Calls
import NotePress.Proofs.Reports
import NotePress.Proofs.Settling
import NotePress.Proofs.WrittenFiles

/-!
# What the compiler is given

A document reaches the compiler as a file, which the first argument names, or through the
compiler's input. Either way it is what the file holds when the compiler starts, after the fixer of
the profile has worked on it.

`streamed_calls` compares the two ways: the document's path is left out of the arguments and its
bytes are sent in its place, and nothing else changes. Only a document that cannot be read any more
is not sent, and then the compiler does not start (`removed_document_not_sent`).

`failed_fix_document` says which document is compiled under a warning that fixing failed: what the
failing fixer left, which is the prepared text just when the fixer left that as it was. A fixer that
fails halfway leaves something else (`half_fixed_compiled`).
-/

namespace NotePress

variable {σ : Type}

/-! ### A note that stays as it is -/

namespace Prepared

variable {g : Collection} {c : Cache} {t : Text} {source : DocumentId} {p : Profile}
  {format : ExportFormat}

/-- A text without embeds that a pass does not change is prepared as it is. -/
theorem of_unchanged (hembeds : t.openEmbeds = [])
    (hfixed : (lowering g p format).passText c source t = t) :
    (Prepared.of g c t source p format).1 = ⟨t, Preamble.compose p.customHeader p.labels, []⟩ := by
  obtain ⟨hends, htext⟩ := Resolver.expandVisited_of_no_embeds (r := Resolver.within g none)
    hembeds source [] c
  have hwarnings : ((Resolver.within g none).expandVisited c t source [source]).1.warnings = [] :=
    List.eq_nil_iff_forall_not_mem.mpr fun w hw => by
      obtain ⟨e, he, -⟩ := (Resolver.mem_warnings_iff hends).mp hw
      rw [hembeds] at he
      cases he
  obtain ⟨out, hout⟩ := Option.isSome_iff_exists.mp hends
  have hexpand : (Resolver.within g none).expandVisited c t source [source] = out :=
    Weaver.weave_of_some hout
  have hlower : ((lowering g p format).lower out.2 t source).1 = ⟨t, 1, true⟩ :=
    Lowering.lower_of_fixed ((Lowering.passText_congr
      (Weaver.seenThrough_weave? (Resolver.within g none).finds_expander hout)).trans hfixed)
  rw [hexpand] at htext hwarnings
  unfold Prepared.of Resolver.expand
  simp only [hexpand, htext, hwarnings]
  rw [show Lowering.of g p format.keepsTex = lowering g p format from rfl, hlower]
  rfl

end Prepared

/-- A note without links in an empty collection. -/
theorem emptyVault_prepared (p : Profile) (format : ExportFormat) :
    (Prepared.of emptyVault.toCollection .empty ['x'] mainNote p format).1 =
      ⟨['x'], Preamble.compose p.customHeader p.labels, []⟩ := by
  have hsites : (Lowering.of emptyVault.toCollection p format.keepsTex).sitesIn ['x'] mainNote =
      [] := rfl
  refine Prepared.of_unchanged (by decide +kernel)
    (Lowering.passText_of_vault emptyVault p format.keepsTex ?_ ?_)
  · simp [hsites]
  · rw [hsites]
    rfl

/-! ### The compiler's arguments -/

/-- Where the compiler looks for files does not depend on how the document is given. -/
theorem CompilerFiles.resourcePath_sentToInput (f : CompilerFiles) (p : Profile) :
    f.sentToInput.resourcePath p = f.resourcePath p := by
  unfold resourcePath sentToInput
  simp [inputDirectory]

/-- A document that is not sent to the input is the first argument; the others stay. -/
theorem Compiler.ownArguments_of_input {f : CompilerFiles} {path : Text} (h : f.input = some path)
    (p : Profile) (format : ExportFormat) :
    ownArguments p format f = path :: ownArguments p format f.sentToInput := by
  unfold ownArguments
  rw [f.resourcePath_sentToInput, h]
  rfl

/-- A job with its document sent to the input in place of the first argument. -/
def Job.streamed (job : Job) (document : List UInt8) : Job :=
  { job with
    invocation := { job.invocation with arguments := job.invocation.arguments.tail }
    input := some document }

namespace Workbench

variable {v : Workbench σ} {c : Cache} {t : Text} {source : DocumentId} {p : Profile}
  {format : ExportFormat} {o : ConversionOptions} {state : σ × Disk}

/-- The job of a compiler that is given the document as a file. -/
def fileJob (v : Workbench σ) (p : Profile) (format : ExportFormat) (o : ConversionOptions) : Job where
  invocation := v.invocationFor p format { o with stream := false }
  directory := v.directoryFor o

theorem invocationFor_streamed (v : Workbench σ) (p : Profile) (format : ExportFormat)
    (o : ConversionOptions) (document : List UInt8) :
    v.invocationFor p format { o with stream := true } =
      ((v.fileJob p format o).streamed document).invocation := by
  unfold Job.streamed fileJob invocationFor Compiler.invocation
  simp only
  rw [@Compiler.ownArguments_of_input (v.filesFor { o with stream := false })
    v.workspace.document rfl]
  rfl

/-- The compiler is sent the document, if that can be read. -/
theorem jobFor_streamed (v : Workbench σ) (p : Profile) (format : ExportFormat)
    (o : ConversionOptions) (d : Disk) :
    v.jobFor p format { o with stream := true } d =
      match d.readBytes v.workspace.document with
      | .ok bytes => .ok ((v.fileJob p format o).streamed bytes)
      | .error e => .error (.temporaryFile .readingDocument e) := by
  unfold jobFor
  simp only [if_true]
  cases d.readBytes v.workspace.document with
  | error e => rfl
  | ok bytes =>
    simp only [v.invocationFor_streamed p format o bytes]
    rfl

/-! ### Both ways -/

theorem convert_result (v : Workbench σ) (c : Cache) (t : Text) (source : DocumentId) (p : Profile)
    (format : ExportFormat) (o : ConversionOptions) (state : σ × Disk) :
    (v.convert c t source p format o state).1.1 =
      (v.compile (Prepared.of v.collection c t source p format).1 p format o state).1 := rfl

theorem convert_of_unfilled {e : ConversionError}
    (h : v.workspace.fill (Prepared.of v.collection c t source p format).1 state.2 = .error e) :
    v.calls c t source p format o state = [] ∧
      (v.convert c t source p format o state).1.1 = .error e := by
  constructor
  · rw [calls_eq, compileCalls, h]
  · rw [convert_result, compile, h]

/-- A conversion whose files are written and whose compiler has a job. -/
theorem convert_of_job {d : Disk} {job : Job}
    (h : v.workspace.fill (Prepared.of v.collection c t source p format).1 state.2 = .ok d)
    (hjob : v.jobFor p format o (v.fix p (state.1, d)).2.2 = .ok job) :
    v.calls c t source p format o state =
        v.fixCalls p (state.1, d) ++ [⟨job, (v.fix p (state.1, d)).2.2⟩] ∧
      (v.convert c t source p format o state).1.1 =
        outcomeOf job.invocation (Path.join v.here o.output)
          (Prepared.of v.collection c t source p format).1.preamble.lineCount
          ((Prepared.of v.collection c t source p format).1.warnings ++
            (v.fix p (state.1, d)).1) (v.run job (v.fix p (state.1, d)).2).1 := by
  constructor
  · rw [calls_eq, compileCalls, h]
    simp only [hjob]
  · rw [convert_result, compile, h]
    simp only [hjob]

/-- A conversion whose files are written and whose compiler has no job. -/
theorem convert_of_no_job {d : Disk} {e : ConversionError}
    (h : v.workspace.fill (Prepared.of v.collection c t source p format).1 state.2 = .ok d)
    (hjob : v.jobFor p format o (v.fix p (state.1, d)).2.2 = .error e) :
    v.calls c t source p format o state = v.fixCalls p (state.1, d) ∧
      (v.convert c t source p format o state).1.1 = .error e := by
  constructor
  · rw [calls_eq, compileCalls, h]
    simp only [hjob, List.append_nil]
  · rw [convert_result, compile, h]
    simp only [hjob]

end Workbench

/-- **Streaming changes only how the document is delivered.** If the temporary files cannot be
written, nothing is run either way. Otherwise the compiler is run, after the fixer's calls, on the
document's path and further arguments. With streaming the fixer's calls are the same, on the same
files, and then the same command is run in the same directory, with the further arguments alone, and
its input is what the document's file held when the compiler would have started without streaming.
If that file cannot be read then, no compiler is started and the conversion fails. -/
theorem streamed_calls (v : Workbench σ) (c : Cache) (t : Text) (source : DocumentId) (p : Profile)
    (format : ExportFormat) (o : ConversionOptions) (state : σ × Disk) :
    let prepared := (Prepared.of v.collection c t source p format).1
    let calls := fun stream => v.calls c t source p format { o with stream := stream } state
    let result := fun stream =>
      (v.convert c t source p format { o with stream := stream } state).1.1
    (∃ e, v.workspace.fill prepared state.2 = .error e ∧
      ∀ stream, calls stream = [] ∧ result stream = .error e) ∨
    ∃ d before call, v.workspace.fill prepared state.2 = .ok d ∧
      calls false = before ++ [call] ∧
      call.disk = (v.fix p (state.1, d)).2.2 ∧
      call.job.invocation.command = p.compiler ∧
      call.job.invocation.arguments.head? = some v.workspace.document ∧
      call.job.input = none ∧
      match call.disk.readBytes v.workspace.document with
      | .ok bytes => calls true = before ++ [⟨call.job.streamed bytes, call.disk⟩]
      | .error e => calls true = before ∧ result true = .error (.temporaryFile .readingDocument e) := by
  intro prepared calls result
  cases hfill : v.workspace.fill prepared state.2 with
  | error e => exact .inl ⟨e, rfl, fun stream => Workbench.convert_of_unfilled hfill⟩
  | ok d =>
    refine .inr ⟨d, v.fixCalls p (state.1, d),
      ⟨v.fileJob p format o, (v.fix p (state.1, d)).2.2⟩, rfl,
      (Workbench.convert_of_job hfill rfl).1, rfl, rfl, rfl, rfl, ?_⟩
    have hjob := v.jobFor_streamed p format o (v.fix p (state.1, d)).2.2
    simp only
    split
    · rename_i bytes hread
      rw [hread] at hjob
      exact (Workbench.convert_of_job hfill hjob).1
    · rename_i e hread
      rw [hread] at hjob
      exact Workbench.convert_of_no_job hfill hjob

/-! ### A fixer that removes the document -/

/-- A machine on which documents are fixed by removing them. -/
def removingMachine : Machine where
  programs := [(["bin".toList, "rm".toList], .utility .removeFiles),
    (["bin".toList, "pandoc".toList], .utility .succeed)]
  searchPath := ["/bin".toList]
  here := "/".toList

/-- The files of the machine. -/
def removingDisk : Disk :=
  ⟨[(["bin".toList, "rm".toList], .file []), (["bin".toList, "pandoc".toList], .file []),
    (["tmp".toList], .directory)]⟩

/-- Conversions on the machine. -/
def removingBench : Workbench Unit where
  collection := emptyVault.toCollection
  run := removingMachine.runner
  here := "/".toList
  workspace := ⟨"/tmp/w".toList, "n.md".toList⟩

/-- The profile that asks for it. -/
def removingProfile : Profile := { lintOnExport := true, lintCommand := some "/bin/rm".toList }

/-- **A document that was removed is not sent**: where the compiler would have been started without
streaming, nothing is. -/
theorem removed_document_not_sent :
    let o := fun stream => ({ output := "n.pdf".toList, stream := stream } : ConversionOptions)
    let commands := fun stream =>
      (removingBench.calls .empty ['x'] mainNote removingProfile .pdf (o stream)
        ((), removingDisk)).map (·.job.invocation.command)
    commands false = ["/bin/rm".toList, "pandoc".toList] ∧
      commands true = ["/bin/rm".toList] ∧
      (removingBench.convert .empty ['x'] mainNote removingProfile .pdf (o true)
        ((), removingDisk)).1.1 = .error (.temporaryFile .readingDocument .missing) := by
  simp only [Workbench.calls_eq, Workbench.convert_result, removingBench, emptyVault_prepared]
  refine ⟨?_, ?_, ?_⟩
  · decide +kernel
  · decide +kernel
  · decide +kernel

/-! ### Under a warning that fixing failed -/

/-- The document that a call of the compiler is given: its input, or the file that its first
argument names. -/
def Call.document (call : Call) : Except AccessError (List UInt8) :=
  match call.job.input with
  | some bytes => .ok bytes
  | none => call.disk.readBytes (call.job.invocation.arguments.headD [])

/-- Preparing a note does not warn that fixing failed. -/
theorem Prepared.lintFailed_not_mem (g : Collection) (c : Cache) (t : Text) (source : DocumentId)
    (p : Profile) (format : ExportFormat) (message : Text) :
    .lintFailed message ∉ (Prepared.of g c t source p format).1.warnings := by
  rw [Prepared.mem_warnings_iff (by simp)]
  intro hmem
  cases hends : (Resolver.within g none).expander.weave? t source [source] c with
  | none =>
    unfold Resolver.expand Resolver.expandVisited Weaver.weave at hmem
    rw [hends] at hmem
    cases hmem
  | some out =>
    obtain ⟨fault, -, hfault⟩ := Resolver.exists_of_warning_mem (by rw [hends]; rfl) hmem rfl
    cases fault <;> cases hfault

/-- If two steps succeed, so does the first one. -/
theorem exists_of_bind_eq_ok {ε α β : Type} {x : Except ε α} {next : α → Except ε β} {result : β}
    (h : (x >>= next) = .ok result) : ∃ a, x = .ok a ∧ next a = .ok result := by
  cases x with
  | error e => cases h
  | ok a => exact ⟨a, rfl, h⟩

theorem mapError_eq_ok {ε ε' α : Type} {x : Except ε α} {rename : ε → ε'} {a : α} :
    x.mapError rename = .ok a ↔ x = .ok a := by
  cases x <;> simp [Except.mapError]

/-- What was written is there before anything is run. -/
theorem Workspace.readBytes_fill {w : Workspace} {prepared : Prepared} {d filled : Disk}
    (h : w.fill prepared d = .ok filled) :
    filled.readBytes w.document = .ok (Text.encode prepared.markdown) := by
  obtain ⟨made, -, h⟩ := exists_of_bind_eq_ok h
  obtain ⟨headed, -, h⟩ := exists_of_bind_eq_ok h
  exact Disk.readBytes_of_write (mapError_eq_ok.mp h)

namespace Workbench

variable {v : Workbench σ} {c : Cache} {t : Text} {source : DocumentId} {p : Profile}
  {format : ExportFormat} {o : ConversionOptions} {state : σ × Disk}

/-- Fixing warns only of a fixer that failed. -/
theorem exists_of_mem_fix {w : Warning} (h : w ∈ (v.fix p state).1) :
    ∃ fixer fault, v.fixerFor p = some fixer ∧
      fixer v.workspace.document state = (.error fault, (v.fix p state).2) ∧
      w = .lintFailed fault.message := by
  unfold fix at h ⊢
  cases hfixer : v.fixerFor p with
  | none =>
    rw [hfixer] at h
    cases h
  | some fixer =>
    simp only [hfixer] at h ⊢
    rcases hrun : fixer v.workspace.document state with ⟨fault | ⟨⟩, after⟩
    · rw [hrun] at h
      exact ⟨fixer, fault, rfl, hrun, List.mem_singleton.mp h⟩
    · rw [hrun] at h
      cases h

/-- The compiler is given what the document's file holds when it starts. -/
theorem document_of_jobFor {d : Disk} {job : Job} (h : v.jobFor p format o d = .ok job) :
    (Call.mk job d).document = d.readBytes v.workspace.document := by
  obtain ⟨output, extra, stream, directory⟩ := o
  cases stream with
  | false =>
    cases h
    rfl
  | true =>
    have hjob := h.symm.trans (v.jobFor_streamed p format ⟨output, extra, true, directory⟩ d)
    cases hread : d.readBytes v.workspace.document with
    | error e =>
      rw [hread] at hjob
      cases hjob
    | ok bytes =>
      rw [hread] at hjob
      cases hjob
      rfl

/-- An outcome carries the warnings and the invocation. -/
theorem outcomeOf_eq_ok {i : Invocation} {output : Text} {headerLines : Nat}
    {warnings : List Warning} {result : Except RunError JobResult} {outcome : Outcome}
    (h : outcomeOf i output headerLines warnings result = .ok outcome) :
    outcome.warnings = warnings ∧ outcome.invocation = i := by
  unfold outcomeOf at h
  split at h
  · cases h
  · cases h
  · simp only at h
    split at h <;> cases h
    exact ⟨rfl, rfl⟩

/-- A conversion that gives an outcome has run the compiler, on what the fixer left behind. -/
theorem exists_of_outcome {outcome : Outcome}
    (h : (v.convert c t source p format o state).1.1 = .ok outcome) :
    ∃ filled call,
      v.workspace.fill (Prepared.of v.collection c t source p format).1 state.2 = .ok filled ∧
      v.calls c t source p format o state = v.fixCalls p (state.1, filled) ++ [call] ∧
      call.document = (v.fix p (state.1, filled)).2.2.readBytes v.workspace.document ∧
      call.job.invocation = outcome.invocation ∧
      outcome.warnings = (Prepared.of v.collection c t source p format).1.warnings ++
        (v.fix p (state.1, filled)).1 := by
  cases hfill : v.workspace.fill (Prepared.of v.collection c t source p format).1 state.2 with
  | error e =>
    rw [(convert_of_unfilled hfill).2] at h
    cases h
  | ok filled =>
    cases hjob : v.jobFor p format o (v.fix p (state.1, filled)).2.2 with
    | error e =>
      rw [(convert_of_no_job hfill hjob).2] at h
      cases h
    | ok job =>
      obtain ⟨hcalls, hresult⟩ := convert_of_job hfill hjob
      obtain ⟨hwarnings, hinvocation⟩ := outcomeOf_eq_ok (hresult.symm.trans h)
      exact ⟨filled, ⟨job, _⟩, rfl, hcalls, document_of_jobFor hjob, hinvocation.symm, hwarnings⟩

end Workbench

/-- **Which document is compiled under a warning that fixing failed.** The fixer of the profile
failed, and the message is that of its error. When it started, the document's file held the prepared
text; the last thing that was run is the compiler of the outcome, and however it was given its
document, that is what the fixer left in the file. So it is the prepared text just when the file
holds after the fixer failed what it held before. -/
theorem failed_fix_document (v : Workbench σ) (c : Cache) (t : Text) (source : DocumentId)
    (p : Profile) (format : ExportFormat) (o : ConversionOptions) (state : σ × Disk)
    {outcome : Outcome} {message : Text}
    (hok : (v.convert c t source p format o state).1.1 = .ok outcome)
    (hfailed : .lintFailed message ∈ outcome.warnings) :
    let prepared := (Prepared.of v.collection c t source p format).1
    let document := v.workspace.document
    ∃ filled fixer fault after before call,
      v.workspace.fill prepared state.2 = .ok filled ∧
      filled.readBytes document = .ok (Text.encode prepared.markdown) ∧
      v.fixerFor p = some fixer ∧
      fixer document (state.1, filled) = (.error fault, after) ∧
      message = fault.message ∧
      v.calls c t source p format o state = before ++ [call] ∧
      call.job.invocation = outcome.invocation ∧
      call.document = after.2.readBytes document ∧
      (call.document = .ok (Text.encode prepared.markdown) ↔
        after.2.readBytes document = filled.readBytes document) := by
  intro prepared document
  obtain ⟨filled, call, hfill, hcalls, hdocument, hinvocation, hwarnings⟩ :=
    Workbench.exists_of_outcome hok
  have hmem : .lintFailed message ∈ (v.fix p (state.1, filled)).1 := by
    rw [hwarnings, List.mem_append] at hfailed
    exact hfailed.resolve_left (Prepared.lintFailed_not_mem _ _ _ _ _ _ _)
  obtain ⟨fixer, fault, hfixer, hrun, hmessage⟩ := Workbench.exists_of_mem_fix hmem
  have hfilled := Workspace.readBytes_fill hfill
  refine ⟨filled, fixer, fault, _, _, call, hfill, hfilled, hfixer, hrun,
    Warning.lintFailed.inj hmessage, hcalls, hinvocation, hdocument, ?_⟩
  rw [hdocument, hfilled]

/-! ### A fixer that fails halfway -/

/-- A conversion whose fixer writes half a document and then fails. -/
def halfBench : Workbench Rehearsal where
  collection := emptyVault.toCollection
  run := Rehearsal.runner
  here := "/".toList
  workspace := ⟨"/tmp/w".toList, "n.md".toList⟩

/-- What the fixer does. -/
def halfRun : Rehearsal where
  pending := [⟨some "half".toList, .exits { code := 1, messages := Text.encode "bad".toList }⟩]

/-- A disk with a place for temporary files. -/
def temporaryDisk : Disk := ⟨[(["tmp".toList], .directory)]⟩

/-- The profile that asks for the fixer. -/
def halfProfile : Profile := { lintOnExport := true, lintCommand := some "fix".toList }

/-- The outcome of the conversion. -/
def halfOutcome : Outcome where
  output := "/n.pdf".toList
  diagnostics := []
  warnings := [.lintFailed "fix exited with code 1: bad".toList]
  invocation := halfBench.invocationFor halfProfile .pdf { output := "n.pdf".toList }

theorem halfBench_converts :
    (halfBench.convert .empty ['x'] mainNote halfProfile .pdf { output := "n.pdf".toList }
      (halfRun, temporaryDisk)).1.1 = .ok halfOutcome := by
  rw [Workbench.convert_result, show halfBench.collection = emptyVault.toCollection from rfl,
    emptyVault_prepared]
  decide +kernel

/-- **Half a document can be compiled** under the warning. -/
theorem half_fixed_compiled :
    let o : ConversionOptions := { output := "n.pdf".toList }
    let state := (halfRun, temporaryDisk)
    (Prepared.of halfBench.collection .empty ['x'] mainNote halfProfile .pdf).1.markdown = ['x'] ∧
      (halfBench.convert .empty ['x'] mainNote halfProfile .pdf o state).1.1 = .ok halfOutcome ∧
      .lintFailed "fix exited with code 1: bad".toList ∈ halfOutcome.warnings ∧
      (halfBench.calls .empty ['x'] mainNote halfProfile .pdf o state).map
          (fun call => (call.job.invocation.command, call.document)) =
        [("fix".toList, .ok (Text.encode ['x'])),
          ("pandoc".toList, .ok (Text.encode "half".toList))] := by
  refine ⟨?_, halfBench_converts, List.mem_singleton_self _, ?_⟩
  · rw [show halfBench.collection = emptyVault.toCollection from rfl, emptyVault_prepared]
  · simp only [Workbench.calls_eq, show halfBench.collection = emptyVault.toCollection from rfl,
      emptyVault_prepared]
    decide +kernel

/-- That conversion. -/
theorem failed_fix_document_half :
    let o : ConversionOptions := { output := "n.pdf".toList }
    let state := (halfRun, temporaryDisk)
    let prepared :=
      (Prepared.of halfBench.collection .empty ['x'] mainNote halfProfile .pdf).1
    let document := halfBench.workspace.document
    (halfBench.convert .empty ['x'] mainNote halfProfile .pdf o state).1.1 = .ok halfOutcome ∧
      .lintFailed "fix exited with code 1: bad".toList ∈ halfOutcome.warnings ∧
      ∃ filled fixer fault after before call,
        halfBench.workspace.fill prepared state.2 = .ok filled ∧
        filled.readBytes document = .ok (Text.encode prepared.markdown) ∧
        halfBench.fixerFor halfProfile = some fixer ∧
        fixer document (state.1, filled) = (.error fault, after) ∧
        "fix exited with code 1: bad".toList = fault.message ∧
        halfBench.calls .empty ['x'] mainNote halfProfile .pdf o state = before ++ [call] ∧
        call.job.invocation = halfOutcome.invocation ∧
        call.document = after.2.readBytes document ∧
        (call.document = .ok (Text.encode prepared.markdown) ↔
          after.2.readBytes document = filled.readBytes document) :=
  ⟨halfBench_converts, List.mem_singleton_self _,
    failed_fix_document halfBench .empty ['x'] mainNote halfProfile .pdf
      { output := "n.pdf".toList } (halfRun, temporaryDisk) halfBench_converts
        (List.mem_singleton_self _)⟩

end NotePress
