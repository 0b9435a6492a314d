import NotePress.Number.Floating
import NotePress.Text.Blank

/-!
# Data values

The values that settings files hold. Maps keep the order of their entries and may have keys of any
kind; `get?` looks for the first entry with a text key. A tag stands around the value it names.
-/

namespace NotePress

/-- A value of a settings file. -/
inductive Data where
  | null
  | bool (b : Bool)
  | int (n : Int)
  | float (format : BinaryFormat) (x : Floating)
  | text (t : Text)
  | list (items : List Data)
  | map (entries : List (Data × Data))
  | tagged (tag : Text) (inner : Data)

namespace Data

/-- The value without the tags around it. -/
def untag : Data → Data
  | .tagged _ inner => inner.untag
  | d => d

/-- The text of a text value, whatever tags stand around it. -/
def text? (d : Data) : Option Text :=
  match d.untag with
  | .text t => some t
  | _ => none

/-- Whether a value is a text that stands without a tag. -/
def spells (d : Data) (t : Text) : Bool :=
  match d with
  | .text u => u = t
  | _ => false

/-- The value of a text key. -/
def get? (key : Text) (entries : List (Data × Data)) : Option Data :=
  (entries.find? fun e => e.1.spells key).map (·.2)

/-- The entries without those of a text key. -/
def without (key : Text) (entries : List (Data × Data)) : List (Data × Data) :=
  entries.filter fun e => !e.1.spells key

/-- The name of a tag for comparison: a mark in front of it does not count. -/
def tagName (tag : Text) : Text :=
  match tag with
  | '!' :: c :: rest => c :: rest
  | t => t

mutual
/-- Whether two values are the same key of a map. What is not a number is the same as itself here,
and the order of a map's entries does not matter. -/
def sameKey : Data → Data → Bool
  | .null, .null => true
  | .bool a, .bool b => a = b
  | .int a, .int b => a = b
  | .float _ a, .float _ b => a = b || Floating.same a b
  | .text a, .text b => a = b
  | .list a, .list b => sameItems a b
  | .map a, .map b => a.length = b.length && sameEntries a b
  | .tagged s a, .tagged t b => tagName s = tagName t && sameKey a b
  | _, _ => false

/-- Whether two lists hold the same keys, place by place. -/
def sameItems : List Data → List Data → Bool
  | [], [] => true
  | a :: as, b :: bs => sameKey a b && sameItems as bs
  | _, _ => false

/-- Whether every entry of one map is in the other. -/
def sameEntries : List (Data × Data) → List (Data × Data) → Bool
  | [], _ => true
  | (k, v) :: rest, others =>
    (others.any fun e => sameKey k e.1 && sameKey v e.2) && sameEntries rest others
end

/-- Whether no key stands twice. -/
def distinctKeys : List (Data × Data) → Bool
  | [] => true
  | (k, _) :: rest => !(rest.any fun e => sameKey k e.1) && distinctKeys rest

end Data

end NotePress
