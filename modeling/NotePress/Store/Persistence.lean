import NotePress.Json.Writer
import NotePress.Profile.Codec
import NotePress.Store.Basic
import NotePress.Store.Error
import NotePress.Yaml.Reader
import NotePress.Yaml.Writer

/-!
# Stores in settings files

A settings file is YAML, and so JSON, in one of three shapes: profiles by name, a list of profiles
that carry their names, and the settings of a single profile. Stores are written in the first shape,
as JSON for files of that extension and as YAML for all others.
-/

namespace NotePress.Store

/-- The kind of a value. -/
def kindOf : Data → ValueKind
  | .null => .null
  | .bool _ => .boolean
  | .int _ => .number
  | .float _ _ => .number
  | .text _ => .string
  | .list _ => .list
  | .map _ => .mapping
  | .tagged _ _ => .tagged

/-- Reads a profile; null is the default one. -/
def profileOf (d : Data) : Except ParseError Profile :=
  match Profile.ofData? .settings d with
  | some p => .ok p
  | none => .error .badProfile

/-- Reads profiles by name. -/
def ofEntries :
    List (Text × Profile) → List (Data × Data) → Except ParseError (List (Text × Profile))
  | profiles, [] => .ok profiles
  | profiles, (key, d) :: rest =>
    match key.text? with
    | none => .error .nameNotAString
    | some name => (profileOf d).bind fun p => ofEntries (put profiles name p) rest

/-- A name with a number behind it. -/
def numberedName (name : Text) (n : Nat) : Text := name ++ " (".toList ++ Text.ofNat n ++ [')']

/-- The first of `name`, `name (2)`, `name (3)` and so on that is not taken. Of one more names than
are taken, one is free. -/
def freeName (taken : List Text) (name : Text) : Text :=
  let numbered := (List.range' 2 taken.length).map (numberedName name)
  ((name :: numbered).find? fun n => !taken.contains n).getD name

/-- The name that an entry of a list carries, and its settings. -/
def splitEntry (d : Data) : Option Text × Data :=
  match d.untag with
  | .map entries =>
    (((Data.get? "name".toList entries).bind Data.text?).bind Text.unlessBlank?,
      .map (Data.without "name".toList entries))
  | _ => (none, d)

/-- Reads a list of profiles. An entry without a name is called by its place; a name that is taken
gets a number. -/
def ofList : List (Text × Profile) → (place : Nat) → List Data →
    Except ParseError (List (Text × Profile))
  | profiles, _, [] => .ok profiles
  | profiles, place, d :: rest =>
    let (name, settings) := splitEntry d
    let name := name.getD ("Profile ".toList ++ Text.ofNat place)
    let name := freeName (profiles.map (·.1)) name
    (profileOf settings).bind fun p => ofList (profiles ++ [(name, p)]) (place + 1) rest

/-- The profiles of a settings file. -/
def profilesOf (entries : List (Data × Data)) : Except ParseError (List (Text × Profile)) :=
  match Data.get? "profiles".toList entries with
  | none =>
    (profileOf (.map (Data.without "activeProfile".toList entries))).map fun p => [(defaultName, p)]
  | some (.list items) => ofList [] 1 items
  | some (.map profiles) => ofEntries [] profiles
  | some other => .error (.profilesKind (kindOf other))

/-- The store that a value holds. -/
def ofData (d : Data) : Except ParseError Store :=
  match d with
  | .null => .ok fresh
  | .map entries =>
    let active := (Data.get? "activeProfile".toList entries).bind Data.text?
    (profilesOf entries).map fun profiles => ofProfiles profiles active
  | other => .error (.notAMapping (kindOf other))

/-- Reads a settings file. -/
def parse (t : Text) : Except ParseError Store :=
  match Yaml.read? t with
  | some d => ofData d
  | none => .error .malformed

/-- Reads a settings file; a malformed one gives a fresh store. -/
def parseOrFresh (t : Text) : Store :=
  match parse t with
  | .ok s => s
  | .error _ => fresh

/-- Reads the settings file at a path; a fresh store if there is none that can be read. -/
def load (d : Disk) (path : Text) : Store :=
  match d.readText path with
  | .ok t => parseOrFresh t
  | .error _ => fresh

/-- A store as data. -/
def toData (s : Store) : Data :=
  .map
    [(.text "activeProfile".toList, .text s.active),
     (.text "profiles".toList, .map (s.profiles.map fun e => (.text e.1, e.2.toData)))]

/-- A store as YAML. -/
def toYaml (s : Store) : Text := Yaml.write s.toData

/-- A store as JSON. -/
def toJson (s : Store) : Text := Json.writePretty 0 s.toData

/-- What is written to a path: JSON for its extension, else YAML. -/
def textFor (s : Store) (path : Text) : Text :=
  if (Path.extension? path).any fun e => Text.sameAscii e "json".toList then s.toJson else s.toYaml

/-- Writes a store to a path. -/
def save (s : Store) (d : Disk) (path : Text) : Except AccessError Disk :=
  d.write path (Text.encode (s.textFor path))

end NotePress.Store
