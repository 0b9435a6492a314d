import NotePress.Yaml.Link
import NotePress.Yaml.Resolution

/-!
# Reading YAML

A text is read into tokens, these into a node, and the node into a value. An alias stands for the
value of its node, which is read anew each time. Keys of a map are distinct at every level. Lists
and maps are nested at most 128 deep, so a node that stands inside of itself has no value; and a
document follows no more than a hundred times as many aliases as it has marks.
-/

namespace NotePress.Yaml

/-- A value, and how many aliases were followed so far. -/
abbrev Followed (α : Type) := Option (α × Nat)

mutual
/-- The value of a node in which lists and maps are nested at most `depth` deep. -/
def Document.value? (d : Document) (depth : Nat) (followed : Nat) (n : NumberedNode) :
    Followed Data :=
  match n with
  | .alias_ id =>
    if followed < d.aliasLimit then
      (d.target? id).bind fun n => d.content? depth (followed + 1) n
    else none
  | n => d.content? depth followed n
termination_by (depth, 1)

/-- The value of a node that is no alias. -/
def Document.content? (d : Document) (depth : Nat) (followed : Nat) (n : NumberedNode) :
    Followed Data :=
  match depth, n with
  | _, .alias_ _ => none
  | _, .scalar props value plain =>
    (resolveScalar? props.tag value plain).map fun v => (v, followed)
  | 0, _ => none
  | depth + 1, .sequence props items =>
    (d.items? depth followed items).map fun (items, followed) =>
      (withTag props.tag (.list items), followed)
  | depth + 1, .mapping props entries =>
    (d.entries? depth followed entries).bind fun (entries, followed) =>
      if Data.distinctKeys entries then some (withTag props.tag (.map entries), followed) else none
termination_by (depth, 0)

/-- The values of some nodes, one after the other. -/
def Document.items? (d : Document) (depth : Nat) (followed : Nat) (ns : List NumberedNode) :
    Followed (List Data) :=
  match ns with
  | [] => some ([], followed)
  | n :: rest =>
    match d.value? depth followed n with
    | none => none
    | some (v, followed) =>
      (d.items? depth followed rest).map fun (vs, followed) => (v :: vs, followed)
termination_by (depth, ns.length + 2)

/-- The keys and values of some entries, one after the other. -/
def Document.entries? (d : Document) (depth : Nat) (followed : Nat)
    (es : List (NumberedNode × NumberedNode)) : Followed (List (Data × Data)) :=
  match es with
  | [] => some ([], followed)
  | (k, v) :: rest =>
    match d.value? depth followed k with
    | none => none
    | some (k, followed) =>
      match d.value? depth followed v with
      | none => none
      | some (v, followed) =>
        (d.entries? depth followed rest).map fun (es, followed) => ((k, v) :: es, followed)
termination_by (depth, es.length + 2)
end

/-- The deepest nesting that is read. -/
def depthLimit : Nat := 128

/-- Reads a text; an empty one is null. -/
def read? (t : Text) : Option Data :=
  match (tokens? t).bind Node.document? with
  | none => none
  | some none => some .null
  | some (some node) =>
    (Document.ofNode? node).bind fun d => (d.value? depthLimit 0 d.root).map (·.1)

end NotePress.Yaml
