import NotePress.Text.Basic

/-!
# Limits

How much of a resource a process may use. The soft limit is the one that counts; it can be moved up
to the hard one, which can only be made lower.
-/

namespace NotePress

/-- The limits of a resource; none means that there is no limit. -/
structure Limit where
  soft : Option Nat
  hard : Option Nat
  deriving DecidableEq, Repr

namespace Limit

/-- No limit at all. -/
def unlimited : Limit := ⟨none, none⟩

/-- Whether a limit lies above another one. -/
def exceeds (a b : Option Nat) : Bool :=
  match a, b with
  | _, none => false
  | none, some _ => true
  | some n, some m => m < n

/-- Why a limit cannot be set. -/
inductive Fault where
  | softAboveHard
  | notPermitted
  deriving DecidableEq, Repr

/-- The text of a fault. -/
def Fault.message : Fault → Text
  | softAboveHard => "Invalid argument".toList
  | notPermitted => "Operation not permitted".toList

/-- Sets the soft limit, the hard one, or both. -/
def set (l : Limit) (soft hard : Bool) (value : Option Nat) : Except Fault Limit :=
  let changed : Limit := ⟨if soft then value else l.soft, if hard then value else l.hard⟩
  if exceeds changed.soft changed.hard then .error .softAboveHard
  else if exceeds changed.hard l.hard then .error .notPermitted
  else .ok changed

end Limit

/-- A resource that a process uses. -/
structure Resource where
  /-- The letter of its option. -/
  letter : Char
  name : String
  /-- What its limits are counted in. -/
  unit : Nat
  /-- The limits that a process has that is given no others. -/
  initial : Limit := .unlimited

/-- The resources that have limits. -/
def resources : List Resource :=
  [⟨'t', "time(seconds)", 1, .unlimited⟩, ⟨'f', "file(blocks)", 512, .unlimited⟩,
    ⟨'d', "data(kbytes)", 1024, .unlimited⟩, ⟨'s', "stack(kbytes)", 1024, ⟨some 0x800000, none⟩⟩,
    ⟨'c', "coredump(blocks)", 512, .unlimited⟩, ⟨'m', "memory(kbytes)", 1024, .unlimited⟩,
    ⟨'l', "locked memory(kbytes)", 1024, ⟨some 0x800000, some 0x800000⟩⟩,
    ⟨'p', "process", 1, .unlimited⟩, ⟨'n', "nofiles", 1, ⟨some 0x100000, some 0x100000⟩⟩,
    ⟨'v', "vmemory(kbytes)", 1024, .unlimited⟩, ⟨'w', "locks", 1, .unlimited⟩,
    ⟨'r', "rtprio", 1, ⟨some 0, some 0⟩⟩]

end NotePress
