import NotePress.Conversion.Basic

/-!
# What a conversion asks to be run

A runner can take notes of what it is asked for: of each job, with the disk that the job finds
(`Runner.noting`). A conversion that works with such a runner does what it does without the notes
(`Workbench.convert_noting`), so the notes show what it asks of any runner, call by call
(`Workbench.calls`): first what the fixer of the profile asks for, if that is a command, and then,
if the temporary files could be written and read, the compiler (`Workbench.calls_eq`).
-/

namespace NotePress

/-- A run that was asked for, and the files that there were then. -/
structure Call where
  job : Job
  disk : Disk

variable {σ : Type}

/-- A runner that notes its calls. -/
def Runner.noting (run : Runner σ) : Runner (List Call × σ) := fun job state =>
  let (result, s, d) := run job (state.1.2, state.2)
  (result, (state.1.1 ++ [⟨job, state.2⟩], s), d)

/-- A fixer beside a runner that notes its calls. -/
def Fixer.noting (fixer : Fixer σ) : Fixer (List Call × σ) := fun path state =>
  let (result, s, d) := fixer path (state.1.2, state.2)
  (result, (state.1.1, s), d)

/-- A step that takes notes does what `step` does, and notes the calls that `made` says. -/
def Notes {α : Type} (step : σ × Disk → α × σ × Disk)
    (noting : (List Call × σ) × Disk → α × (List Call × σ) × Disk) (made : σ × Disk → List Call) :
    Prop :=
  ∀ calls state, noting ((calls, state.1), state.2) =
    ((step state).1, (calls ++ made state, (step state).2.1), (step state).2.2)

theorem Runner.notes (run : Runner σ) (job : Job) :
    Notes (run job) (run.noting job) fun state => [⟨job, state.2⟩] := fun _ _ => rfl

theorem Fixer.notes (fixer : Fixer σ) (path : Text) :
    Notes (fixer path) (fixer.noting path) fun _ => [] := fun calls state => by
  simp [noting]

/-- A command that fixes a file is one call. -/
theorem Fixer.notes_ofInvocation (run : Runner σ) (i : Invocation) (path : Text) :
    Notes (ofInvocation run i path) (ofInvocation run.noting i path) fun state =>
      [⟨lintJob i path, state.2⟩] := fun calls state => by
  unfold ofInvocation
  rw [run.notes]
  rcases run (lintJob i path) state with ⟨result | result, state'⟩
  · rfl
  · simp only
    split <;> rfl

namespace Workbench

/-- The workbench with a runner that notes its calls. -/
def noting (v : Workbench σ) : Workbench (List Call × σ) where
  collection := v.collection
  run := v.run.noting
  fixer := v.fixer.map Fixer.noting
  here := v.here
  workspace := v.workspace

/-! ### Fixing -/

/-- Both workbenches have no fixer, or ones that do the same. -/
theorem fixerFor_noting (v : Workbench σ) (p : Profile) :
    v.fixerFor p = none ∧ v.noting.fixerFor p = none ∨
      ∃ (fixer : Fixer σ) (fixer' : Fixer (List Call × σ)) (made : Text → σ × Disk → List Call),
        v.fixerFor p = some fixer ∧ v.noting.fixerFor p = some fixer' ∧
          ∀ path, Notes (fixer path) (fixer' path) (made path) := by
  unfold fixerFor
  cases p.lintOnExport with
  | false => exact .inl ⟨rfl, rfl⟩
  | true =>
    cases hfixer : v.fixer with
    | some fixer =>
      refine .inr ⟨fixer, fixer.noting, _, rfl, ?_, fixer.notes⟩
      simp [noting, hfixer]
    | none =>
      simp only [noting, hfixer, Option.map_none, Option.none_or, if_true]
      cases hline : p.lintCommand.bind CommandLine.parse? with
      | none =>
        refine .inl ?_
        cases hcommand : p.lintCommand with
        | none => exact ⟨rfl, rfl⟩
        | some line =>
          rw [hcommand, Option.bind_some] at hline
          simp [Fixer.ofCommandLine?, hline]
      | some i =>
        obtain ⟨line, hcommand, hparse⟩ := Option.bind_eq_some_iff.mp hline
        refine .inr ⟨Fixer.ofInvocation v.run i, Fixer.ofInvocation v.run.noting i, _, ?_, ?_,
          Fixer.notes_ofInvocation v.run i⟩ <;> simp [hcommand, Fixer.ofCommandLine?, hparse]

/-- The calls that fixing makes. -/
def fixCalls (v : Workbench σ) (p : Profile) (state : σ × Disk) : List Call :=
  (v.noting.fix p (([], state.1), state.2)).2.1.1

theorem notes_fix (v : Workbench σ) (p : Profile) :
    Notes (v.fix p) (v.noting.fix p) (v.fixCalls p) := by
  obtain ⟨made, hnotes⟩ : ∃ made, Notes (v.fix p) (v.noting.fix p) made := by
    unfold fix
    rcases v.fixerFor_noting p with ⟨hnone, hnone'⟩ | ⟨fixer, fixer', made, hsome, hsome', hnotes⟩
    · exact ⟨fun _ => [], fun calls state => by simp [hnone, hnone']⟩
    · refine ⟨made v.workspace.document, fun calls state => ?_⟩
      simp only [hsome, hsome', show v.noting.workspace = v.workspace from rfl, hnotes _ calls state]
      rcases fixer v.workspace.document state with ⟨result | result, state'⟩ <;> rfl
  have hmade : v.fixCalls p = made := by
    funext state
    unfold fixCalls
    rw [hnotes]
    rfl
  rw [hmade]
  exact hnotes

/-! ### Compiling -/

/-- The calls that compiling makes. -/
def compileCalls (v : Workbench σ) (prepared : Prepared) (p : Profile) (format : ExportFormat)
    (o : ConversionOptions) (state : σ × Disk) : List Call :=
  match v.workspace.fill prepared state.2 with
  | .error _ => []
  | .ok d =>
    let fixed := (v.fix p (state.1, d)).2
    v.fixCalls p (state.1, d) ++ match v.jobFor p format o fixed.2 with
      | .error _ => []
      | .ok job => [⟨job, fixed.2⟩]

theorem notes_compile (v : Workbench σ) (prepared : Prepared) (p : Profile)
    (format : ExportFormat) (o : ConversionOptions) :
    Notes (v.compile prepared p format o) (v.noting.compile prepared p format o)
      (v.compileCalls prepared p format o) := by
  intro calls state
  unfold compile compileCalls
  simp only [show v.noting.workspace = v.workspace from rfl]
  cases v.workspace.fill prepared state.2 with
  | error e => simp
  | ok d =>
    simp only [v.notes_fix p calls (state.1, d)]
    rcases v.fix p (state.1, d) with ⟨warnings, state'⟩
    simp only [show v.noting.jobFor p format o state'.2 = v.jobFor p format o state'.2 from rfl]
    cases v.jobFor p format o state'.2 with
    | error e => simp
    | ok job =>
      simp only [show v.noting.run = v.run.noting from rfl,
        v.run.notes job (calls ++ v.fixCalls p (state.1, d)) state', List.append_assoc]
      rfl

/-! ### Converting -/

/-- The calls that a conversion makes. -/
def calls (v : Workbench σ) (c : Cache) (t : Text) (source : DocumentId) (p : Profile)
    (format : ExportFormat) (o : ConversionOptions) (state : σ × Disk) : List Call :=
  (v.noting.convert c t source p format o (([], state.1), state.2)).1.2.1.1

/-- **A conversion does with notes what it does without them.** -/
theorem convert_noting (v : Workbench σ) (c : Cache) (t : Text) (source : DocumentId) (p : Profile)
    (format : ExportFormat) (o : ConversionOptions) (calls : List Call) (state : σ × Disk) :
    v.noting.convert c t source p format o ((calls, state.1), state.2) =
      (((v.convert c t source p format o state).1.1,
        (calls ++ v.compileCalls (Prepared.of v.collection c t source p format).1 p format o state,
          (v.convert c t source p format o state).1.2.1),
        (v.convert c t source p format o state).1.2.2),
        (v.convert c t source p format o state).2) := by
  unfold convert
  simp only [show v.noting.collection = v.collection from rfl,
    v.notes_compile _ p format o calls state]
  rfl

/-- **The calls of a conversion**: those of the fixer, and then that of the compiler. -/
theorem calls_eq (v : Workbench σ) (c : Cache) (t : Text) (source : DocumentId) (p : Profile)
    (format : ExportFormat) (o : ConversionOptions) (state : σ × Disk) :
    v.calls c t source p format o state =
      v.compileCalls (Prepared.of v.collection c t source p format).1 p format o state := by
  unfold calls
  rw [convert_noting]
  rfl

end Workbench

end NotePress
