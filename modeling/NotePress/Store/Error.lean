import NotePress.Disk.Basic

/-!
# Errors of stores

What can be wrong with a settings file, with a change to a store, and with saving it.
-/

namespace NotePress

/-- The kinds of values that errors name. -/
inductive ValueKind where
  | null
  | boolean
  | number
  | string
  | list
  | mapping
  | tagged
  deriving DecidableEq, Repr

/-- The name of a kind. -/
def ValueKind.describe : ValueKind → Text
  | .null => "null".toList
  | .boolean => "a boolean".toList
  | .number => "a number".toList
  | .string => "a string".toList
  | .list => "a list".toList
  | .mapping => "a mapping".toList
  | .tagged => "a tagged value".toList

/-- Why a settings file holds no store. -/
inductive ParseError where
  /-- The text is no YAML. -/
  | malformed
  /-- The text is a value that is no mapping. -/
  | notAMapping (found : ValueKind)
  /-- A profile's name is not a string. -/
  | nameNotAString
  /-- The profiles are neither a mapping nor a list. -/
  | profilesKind (found : ValueKind)
  /-- A profile has a field with a value of the wrong kind. -/
  | badProfile
  deriving DecidableEq, Repr

/-- Why a store cannot be changed, read or saved. -/
inductive StoreError where
  | unknownProfile (name : Text)
  | duplicateProfile (name : Text)
  | lastProfile (name : Text)
  | emptyName
  | parse (cause : ParseError)
  | io (cause : AccessError)
  deriving DecidableEq

/-- The text of what is wrong with a settings file. -/
def ParseError.message : ParseError → Text
  | .malformed => "not a YAML text".toList
  | .notAMapping found => "expected a mapping at top level, found ".toList ++ found.describe
  | .nameNotAString => "profile names must be strings".toList
  | .profilesKind found => "'profiles' must be a mapping or a list, found ".toList ++ found.describe
  | .badProfile => "a setting has a value of the wrong kind".toList

/-- The text of an error. -/
def StoreError.message : StoreError → Text
  | .unknownProfile name => "Unknown profile: ".toList ++ name
  | .duplicateProfile name => "A profile named '".toList ++ name ++ "' already exists".toList
  | .lastProfile name =>
    "Cannot delete '".toList ++ name ++ "': at least one profile must remain".toList
  | .emptyName => "Profile names must not be empty".toList
  | .parse cause => "Failed to parse profile store: ".toList ++ cause.message
  | .io cause => "IO error: ".toList ++ cause.message

end NotePress
