import NotePress.Profile.Basic

/-!
# Profile stores

A store holds profiles by name, in order, and says which of them is active. In a valid store there
is at least one profile, no two have the same name, and the active one is among them.
-/

namespace NotePress

/-- Profiles by name, and the name of the active one. -/
structure Store where
  active : Text
  profiles : List (Text × Profile)
  deriving DecidableEq, Repr

namespace Store

/-- The name of the profile that a fresh store has. -/
def defaultName : Text := "Default".toList

/-- A store with one profile, which is active. -/
def singleton (name : Text) (p : Profile) : Store := ⟨name, [(name, p)]⟩

/-- The store that a user starts with. -/
def fresh : Store := singleton defaultName {}

/-- The profile of a name. -/
def get? (s : Store) (name : Text) : Option Profile := s.profiles.lookup name

/-- Whether there is a profile of a name. -/
def contains (s : Store) (name : Text) : Bool := (s.get? name).isSome

/-- The names, in order. -/
def names (s : Store) : List Text := s.profiles.map (·.1)

/-- The active profile. -/
def activeProfile (s : Store) : Profile := (s.get? s.active).getD {}

/-- A store in which the active profile exists and names are distinct. -/
def Valid (s : Store) : Prop := s.names.Nodup ∧ s.active ∈ s.names

/-- Puts a profile in place of the one of its name, or behind all others. -/
def put (profiles : List (Text × Profile)) (name : Text) (p : Profile) : List (Text × Profile) :=
  match profiles with
  | [] => [(name, p)]
  | (other, q) :: rest =>
    if other = name then (name, p) :: rest else (other, q) :: put rest name p

/-- The store of some profiles: the default one if there is none, and the first one active if the
wanted one is not among them. -/
def ofProfiles (profiles : List (Text × Profile)) (active : Option Text) : Store :=
  match profiles with
  | [] => fresh
  | (first, p) :: rest =>
    let all := (first, p) :: rest
    match active with
    | some name => ⟨if (all.lookup name).isSome then name else first, all⟩
    | none => ⟨first, all⟩

/-- Whether two stores are equal; an image scale that is not a number equals none. -/
def same (s t : Store) : Bool :=
  s.active = t.active && s.names = t.names &&
    (s.profiles.zip t.profiles).all fun e => e.1.2.same e.2.2

end Store

end NotePress
