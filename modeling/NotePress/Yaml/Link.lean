import NotePress.Yaml.Node

/-!
# Anchors and aliases

An anchored node gets a number: how many names of anchors came before it. A name that is anchored
again changes its number and adds no name, so two anchors can have one number, and then the last of
their nodes counts. An alias has the number that its name has where it stands; the node it stands
for is known when the whole document is.
-/

namespace NotePress.Yaml

/-- The numbers of names, each name once. -/
abbrev Numbering := List (Text × Nat)

/-- Numbers an anchor. -/
def Numbering.add (numbering : Numbering) (anchor : Option Text) : Option Nat × Numbering :=
  match anchor with
  | none => (none, numbering)
  | some name =>
    (some numbering.length, (name, numbering.length) :: numbering.filter (·.1 ≠ name))

/-- Numbers the anchor among the properties of a node. -/
def Properties.number (numbering : Numbering) (props : Properties Text) :
    Properties Nat × Numbering :=
  let (anchor, numbering) := numbering.add props.anchor
  (⟨anchor, props.tag⟩, numbering)

/-- A node whose anchors and aliases are numbers. -/
abbrev NumberedNode := Node Nat

namespace Node

mutual
/-- Numbers the anchors and aliases of a node, in the order they are written; none if an alias has
no anchor in front of it. -/
def number? (numbering : Numbering) : NamedNode → Option (NumberedNode × Numbering)
  | .alias_ name => (numbering.lookup name).map fun n => (.alias_ n, numbering)
  | .scalar props value plain =>
    let (props, numbering) := props.number numbering
    some (.scalar props value plain, numbering)
  | .sequence props items =>
    let (props, numbering) := props.number numbering
    (numberItems? numbering items).map fun (items, numbering) => (.sequence props items, numbering)
  | .mapping props entries =>
    let (props, numbering) := props.number numbering
    (numberEntries? numbering entries).map fun (entries, numbering) =>
      (.mapping props entries, numbering)

/-- Numbers some nodes, one after the other. -/
def numberItems? (numbering : Numbering) :
    List NamedNode → Option (List NumberedNode × Numbering)
  | [] => some ([], numbering)
  | n :: rest =>
    match n.number? numbering with
    | none => none
    | some (n, numbering) =>
      (numberItems? numbering rest).map fun (ns, numbering) => (n :: ns, numbering)

/-- Numbers some entries, one after the other. -/
def numberEntries? (numbering : Numbering) :
    List (NamedNode × NamedNode) → Option (List (NumberedNode × NumberedNode) × Numbering)
  | [] => some ([], numbering)
  | (k, v) :: rest =>
    match k.number? numbering with
    | none => none
    | some (k, numbering) =>
      match v.number? numbering with
      | none => none
      | some (v, numbering) =>
        (numberEntries? numbering rest).map fun (es, numbering) => ((k, v) :: es, numbering)
end

/-- Puts an anchored node in front of others. -/
def noteTarget (anchor : Option Nat) (n : NumberedNode) (later : List (Nat × NumberedNode)) :
    List (Nat × NumberedNode) :=
  (anchor.map fun id => (id, n)).toList ++ later

mutual
/-- The anchored nodes of a node with their numbers, in the order they begin, in front of others. -/
def targets (later : List (Nat × NumberedNode)) : NumberedNode → List (Nat × NumberedNode)
  | .alias_ _ => later
  | .scalar props value plain => noteTarget props.anchor (.scalar props value plain) later
  | .sequence props items =>
    noteTarget props.anchor (.sequence props items) (itemTargets later items)
  | .mapping props entries =>
    noteTarget props.anchor (.mapping props entries) (entryTargets later entries)

def itemTargets (later : List (Nat × NumberedNode)) :
    List NumberedNode → List (Nat × NumberedNode)
  | [] => later
  | n :: rest => targets (itemTargets later rest) n

def entryTargets (later : List (Nat × NumberedNode)) :
    List (NumberedNode × NumberedNode) → List (Nat × NumberedNode)
  | [] => later
  | (k, v) :: rest => targets (targets (entryTargets later rest) v) k
end

mutual
/-- The number of marks that a node consists of: one for a scalar or an alias, and two for a list or
a map beside those inside. -/
def size {α : Type} : Node α → Nat
  | .alias_ _ => 1
  | .scalar _ _ _ => 1
  | .sequence _ items => itemsSize items + 2
  | .mapping _ entries => entriesSize entries + 2

def itemsSize {α : Type} : List (Node α) → Nat
  | [] => 0
  | n :: rest => size n + itemsSize rest

def entriesSize {α : Type} : List (Node α × Node α) → Nat
  | [] => 0
  | (k, v) :: rest => size k + size v + entriesSize rest
end

end Node

/-- A document whose aliases can be followed. -/
structure Document where
  root : NumberedNode
  /-- The anchored nodes with their numbers, the one that begins last first. -/
  targets : List (Nat × NumberedNode)

namespace Document

/-- The document of a node; none if an alias has no anchor in front of it. -/
def ofNode? (n : NamedNode) : Option Document :=
  (n.number? []).map fun (root, _) => ⟨root, (root.targets []).reverse⟩

/-- The node that an alias stands for. -/
def target? (d : Document) (id : Nat) : Option NumberedNode := d.targets.lookup id

/-- How many aliases may be followed. -/
def aliasLimit (d : Document) : Nat := 100 * d.root.size

end Document

end NotePress.Yaml
