import NotePress.Conversion.Command
import Mathlib.Data.List.Basic

/-!
# Arguments that are passed through

The compiler's command line ends with the arguments of the profile and of the caller, in this order,
and what stands around them does not depend on them. Only archives take a reference document. For
the other formats the option `--reference-doc` is left out with the argument behind it, and so is an
argument that has the option and its value in one.

Which arguments are values is told from the left: an argument is one if the option stands in front
of it and is not a value itself (`isReferenceValue`). So the option can be the value of another one,
and it can be the last argument of the profile, with the caller's first one for its value.
-/

namespace NotePress.Compiler

/-- Whether an argument names a reference document, by itself or with the next one. -/
def namesReference (a : Text) : Bool :=
  a = referenceOption || a.startsWith (referenceOption ++ ['='])

/-- Whether the argument at a place is the value of the option in front of it. -/
def isReferenceValue (args : List Text) : Nat → Bool
  | 0 => false
  | i + 1 => args[i]? = some referenceOption && !isReferenceValue args i

/-- The arguments that are neither options with a reference document nor their values. -/
def withoutReferences (args : List Text) : List Text :=
  (args.zipIdx.filter fun e => !(namesReference e.1 || isReferenceValue args e.2)).map (·.1)

theorem namesReference_referenceOption : namesReference referenceOption = true := by decide

/-! ### Values -/

/-- Behind an argument that is not the option, values are told anew. -/
theorem isReferenceValue_cons {a : Text} (ha : a ≠ referenceOption) (args : List Text) (i : Nat) :
    isReferenceValue (a :: args) (i + 1) = isReferenceValue args i := by
  induction i with
  | zero => simp [isReferenceValue, ha]
  | succ i ih => rw [isReferenceValue, List.getElem?_cons_succ, ih, isReferenceValue]

/-- The first argument behind the option is its value. -/
theorem isReferenceValue_option (args : List Text) :
    isReferenceValue (referenceOption :: args) 1 = true := by
  simp [isReferenceValue]

/-- Behind the option and its value, values are told anew. -/
theorem isReferenceValue_option_cons (value : Text) (args : List Text) (i : Nat) :
    isReferenceValue (referenceOption :: value :: args) (i + 2) = isReferenceValue args i := by
  induction i with
  | zero => simp [isReferenceValue]
  | succ i ih =>
    rw [isReferenceValue, List.getElem?_cons_succ, List.getElem?_cons_succ, ih, isReferenceValue]

/-! ### What is kept -/

/-- What is kept behind the first arguments, if the values there are told anew. -/
theorem map_filter_zipIdx {whole rest : List Text} {k : Nat}
    (h : ∀ i, isReferenceValue whole (i + k) = isReferenceValue rest i) :
    ((rest.zipIdx k).filter fun e => !(namesReference e.1 || isReferenceValue whole e.2)).map
      (·.1) = withoutReferences rest := by
  unfold withoutReferences
  rw [List.zipIdx_eq_map_add, List.filter_map, List.map_map]
  simp only [Function.comp_def, Nat.add_comm k, h]

/-- **Dropping from the left leaves out the options and their values**, and nothing else. -/
theorem dropReferences_eq (args : List Text) : dropReferences args = withoutReferences args := by
  fun_induction dropReferences args with
  | case1 => rfl
  | case2 => rfl
  | case3 value rest ih =>
    have hrest := map_filter_zipIdx (k := 2) (isReferenceValue_option_cons value rest)
    rw [ih, ← hrest]
    simp [withoutReferences, namesReference_referenceOption, isReferenceValue_option]
  | case4 a rest ha hstarts ih =>
    have hrest := map_filter_zipIdx (k := 1) (isReferenceValue_cons ha rest)
    rw [ih, ← hrest]
    simp [withoutReferences, namesReference, hstarts]
  | case5 a rest ha hstarts ih =>
    have hrest := map_filter_zipIdx (k := 1) (isReferenceValue_cons ha rest)
    rw [ih, ← hrest]
    simp [withoutReferences, namesReference, ha, hstarts, isReferenceValue]

theorem withoutReferences_sublist (args : List Text) :
    (withoutReferences args).Sublist args := by
  have h := (List.filter_sublist (p := fun e : Text × Nat =>
    !(namesReference e.1 || isReferenceValue args e.2)) (l := args.zipIdx)).map (·.1)
  rwa [List.zipIdx_map_fst] at h

theorem namesReference_of_mem {args : List Text} {a : Text} (h : a ∈ withoutReferences args) :
    namesReference a = false := by
  obtain ⟨e, he, rfl⟩ := List.mem_map.mp h
  have hkept := (List.mem_filter.mp he).2
  simp only [Bool.not_eq_true', Bool.or_eq_false_iff] at hkept
  exact hkept.1

/-- Arguments that name no reference document are all kept. -/
theorem dropReferences_eq_self {args : List Text} (h : ∀ a ∈ args, namesReference a = false) :
    dropReferences args = args := by
  induction args with
  | nil => rfl
  | cons a rest ih =>
    obtain ⟨ha, hrest⟩ := List.forall_mem_cons.mp h
    simp only [namesReference, Bool.or_eq_false_iff, decide_eq_false_iff_not] at ha
    unfold dropReferences
    rw [if_neg ha.1, if_neg (by simp [ha.2]), ih hrest]

/-! ### The command line -/

/-- **What is passed through.** Whatever arguments the profile and the caller give, they stand
between the compiler's own ones, which are the same for all of them, and `--standalone`, if the
profile asks for it. An archive is given all of them, those of the profile first. Any other format
is given those of them, in their order, that are neither options with a reference document nor
values of such an option; so it is given no option of that kind, and all of what it is given passes
a second time. -/
theorem arguments_passed_through (p : Profile) (format : ExportFormat) (files : CompilerFiles)
    (mine theirs : List Text) : ∃ passed,
    (invocation { p with extraArgs := mine } format files theirs).arguments =
      ownArguments p format files ++ passed ++
        (if p.standalone then ["--standalone".toList] else []) ∧
    (format = .docx ∨ format = .odt → passed = mine ++ theirs) ∧
    (¬(format = .docx ∨ format = .odt) →
      passed.Sublist (mine ++ theirs) ∧
      (∀ a ∈ passed, a ≠ "--reference-doc".toList ∧ ¬"--reference-doc=".toList <+: a) ∧
      passed = withoutReferences (mine ++ theirs) ∧
      passThrough format passed = passed) := by
  refine ⟨passThrough format (mine ++ theirs), rfl, fun harchive => ?_, fun hplain => ?_⟩
  · rw [passThrough, if_pos (by simpa [ExportFormat.isArchive] using harchive)]
  · have hdrops : ∀ args, passThrough format args = dropReferences args := fun args => by
      rw [passThrough, if_neg (by simpa [ExportFormat.isArchive] using hplain)]
    have hnames : ∀ a ∈ withoutReferences (mine ++ theirs), namesReference a = false :=
      fun _ => namesReference_of_mem
    simp only [hdrops, dropReferences_eq (mine ++ theirs)]
    refine ⟨withoutReferences_sublist _, fun a ha => ?_, trivial, dropReferences_eq_self hnames⟩
    have hnot := hnames a ha
    simp only [namesReference, Bool.or_eq_false_iff, decide_eq_false_iff_not] at hnot
    exact ⟨hnot.1, fun hstarts => by
      rw [Text.startsWith, ← Bool.not_eq_true, List.isPrefixOf_iff_prefix] at hnot
      exact hnot.2 hstarts⟩

-- The option that ends the profile's arguments takes the caller's first one, which is the option.
example : withoutReferences (["--toc", "--reference-doc"].map String.toList ++
    ["--reference-doc", "x"].map String.toList) = ["--toc", "x"].map String.toList := by decide

end NotePress.Compiler
