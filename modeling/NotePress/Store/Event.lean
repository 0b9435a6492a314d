import NotePress.Store.Basic
import NotePress.Store.Error

/-!
# Changing a store

A change gives a new store or says why it cannot be made. New names are trimmed and must not be
empty. Deleting the active profile makes the first one active, and the last profile stays.
-/

namespace NotePress

/-- A change to a store. -/
inductive StoreEvent where
  /-- Adds a profile, with the settings of a template or the default ones. -/
  | create (name : Text) (template : Option Text)
  /-- Renames a profile, which keeps its place. -/
  | rename (name newName : Text)
  | delete (name : Text)
  | activate (name : Text)
  /-- Replaces the settings of a profile. -/
  | update (name : Text) (profile : Profile)
  /-- Gives a profile the default settings. -/
  | reset (name : Text)

namespace Store

/-- A new name, trimmed. -/
def checkName (name : Text) : Except StoreError Text :=
  match name.unlessBlank? with
  | some name => .ok name
  | none => .error .emptyName

/-- Adds a profile behind all others. -/
def create (s : Store) (name : Text) (template : Option Text) : Except StoreError Store :=
  (checkName name).bind fun name =>
    if s.contains name then .error (.duplicateProfile name)
    else
      match template with
      | none => .ok { s with profiles := s.profiles ++ [(name, {})] }
      | some t =>
        match s.get? t with
        | some p => .ok { s with profiles := s.profiles ++ [(name, p)] }
        | none => .error (.unknownProfile t)

/-- Renames a profile in its place. -/
def rename (s : Store) (name newName : Text) : Except StoreError Store :=
  (checkName newName).bind fun newName =>
    if !s.contains name then .error (.unknownProfile name)
    else if name = newName then .ok s
    else if s.contains newName then .error (.duplicateProfile newName)
    else
      .ok ⟨if s.active = name then newName else s.active,
        s.profiles.map fun e => if e.1 = name then (newName, e.2) else e⟩

/-- Removes a profile; if it was active, the first of the others becomes active. -/
def delete (s : Store) (name : Text) : Except StoreError Store :=
  if !s.contains name then .error (.unknownProfile name)
  else if s.profiles.length = 1 then .error (.lastProfile name)
  else
    let profiles := s.profiles.filter fun e => e.1 ≠ name
    .ok ⟨if s.active = name then (profiles.head?.map (·.1)).getD s.active else s.active, profiles⟩

/-- Makes a profile the active one. -/
def activate (s : Store) (name : Text) : Except StoreError Store :=
  if s.contains name then .ok { s with active := name } else .error (.unknownProfile name)

/-- Replaces the settings of a profile. -/
def update (s : Store) (name : Text) (p : Profile) : Except StoreError Store :=
  if s.contains name then .ok { s with profiles := put s.profiles name p }
  else .error (.unknownProfile name)

/-- Makes a change. -/
def apply (s : Store) : StoreEvent → Except StoreError Store
  | .create name template => s.create name template
  | .rename name newName => s.rename name newName
  | .delete name => s.delete name
  | .activate name => s.activate name
  | .update name p => s.update name p
  | .reset name => s.update name {}

end Store

end NotePress
