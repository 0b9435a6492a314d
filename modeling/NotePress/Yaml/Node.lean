import NotePress.Yaml.Token

/-!
# Nodes of a YAML text

The tree of scalars, lists, maps and aliases that a sequence of tokens spells out. A missing value
is an empty plain scalar. A text is at most one document. Every reader is given fuel that the number
of tokens bounds.
-/

namespace NotePress.Yaml

/-- What may stand in front of a node; `α` is what anchors are told apart by. -/
structure Properties (α : Type) where
  anchor : Option α := none
  tag : Option (List UInt8) := none
  deriving DecidableEq, Repr

/-- A node. Its anchors and aliases are names as they are written, or numbers. -/
inductive Node (α : Type) where
  | alias_ (target : α)
  | scalar (props : Properties α) (value : Text) (plain : Bool)
  | sequence (props : Properties α) (items : List (Node α))
  | mapping (props : Properties α) (entries : List (Node α × Node α))
  deriving Repr

/-- A node as it is written. -/
abbrev NamedNode := Node Text

namespace Node

/-- The value that is not there. -/
def missing {α : Type} : Node α := .scalar {} [] true

/-- What the handles of tags stand for. -/
abbrev Handles := List (Text × List UInt8)

/-- The handles that every document has. -/
def defaultHandles : Handles :=
  [(['!'], bareTag), (['!', '!'], Text.encode "tag:yaml.org,2002:".toList)]

/-- A tag with its handle written out. -/
def fullTag? (handles : Handles) (handle : Text) (rest : List UInt8) : Option (List UInt8) :=
  if handle = [] then some rest else (handles.lookup handle).map (· ++ rest)

/-- Reads an anchor and a tag, each at most once and in either order. -/
def readProperties? (handles : Handles) : List Token → Option (Properties Text × List Token)
  | .anchor a :: .tag h r :: rest =>
    (fullTag? handles h r).map fun t => (⟨some a, some t⟩, rest)
  | .anchor a :: rest => some (⟨some a, none⟩, rest)
  | .tag h r :: .anchor a :: rest =>
    (fullTag? handles h r).map fun t => (⟨some a, some t⟩, rest)
  | .tag h r :: rest => (fullTag? handles h r).map fun t => (⟨none, some t⟩, rest)
  | tokens => some ({}, tokens)

/-- Whether a token cannot begin a value, so that the value is missing. -/
def endsValue (ends : List Token) (tokens : List Token) : Bool :=
  match tokens with
  | t :: _ => ends.contains t
  | [] => false

/-- What reading a part of the tokens gives: the part and the tokens behind it. -/
abbrev Reading (α : Type) := Option (α × List Token)

mutual
/-- Reads a node. In a block, block lists and maps may stand; a list that is an entry's value in a
map may be indented no further than the map. -/
def read? (handles : Handles) :
    Nat → (block indentless : Bool) → List Token → Reading NamedNode
  | 0, _, _, _ => none
  | fuel + 1, block, indentless, tokens =>
    match tokens with
    | .alias_ name :: rest => some (.alias_ name, rest)
    | _ =>
      match readProperties? handles tokens with
      | none => none
      | some (props, tokens) =>
        match tokens with
        | .scalar value plain :: rest =>
          some (.scalar props value plain, rest)
        | .flowSequenceStart :: rest =>
          (readFlowItems? handles fuel true [] rest).map fun p => (.sequence props p.1, p.2)
        | .flowMappingStart :: rest =>
          (readFlowEntries? handles fuel true [] rest).map fun p => (.mapping props p.1, p.2)
        | .blockEntry :: _ =>
          if indentless then
            (readIndentlessItems? handles fuel [] tokens).map fun p => (.sequence props p.1, p.2)
          else if props = {} then none
          else some (.scalar props [] true, tokens)
        | .blockSequenceStart :: rest =>
          if block then
            (readBlockItems? handles fuel [] rest).map fun p => (.sequence props p.1, p.2)
          else if props = {} then none
          else some (.scalar props [] true, tokens)
        | .blockMappingStart :: rest =>
          if block then
            (readBlockEntries? handles fuel [] rest).map fun p => (.mapping props p.1, p.2)
          else if props = {} then none
          else some (.scalar props [] true, tokens)
        | _ => if props = {} then none else some (.scalar props [] true, tokens)

/-- Reads a node unless one of the given tokens comes next. -/
def readUnless? (handles : Handles) :
    Nat → (ends : List Token) → (block indentless : Bool) → List Token → Reading NamedNode
  | 0, _, _, _, _ => none
  | fuel + 1, ends, block, indentless, tokens =>
    if endsValue ends tokens then some (missing, tokens)
    else read? handles fuel block indentless tokens

/-- Reads the items of a block list; `done` holds those read, reversed. -/
def readBlockItems? (handles : Handles) :
    Nat → List NamedNode → List Token → Reading (List NamedNode)
  | 0, _, _ => none
  | fuel + 1, done, tokens =>
    match tokens with
    | .blockEntry :: rest =>
      match readUnless? handles fuel [.blockEntry, .blockEnd] true false rest with
      | some (item, rest) => readBlockItems? handles fuel (item :: done) rest
      | none => none
    | .blockEnd :: rest => some (done.reverse, rest)
    | _ => none

/-- Reads the items of a list that is indented no further than the map around it. -/
def readIndentlessItems? (handles : Handles) :
    Nat → List NamedNode → List Token → Reading (List NamedNode)
  | 0, _, _ => none
  | fuel + 1, done, tokens =>
    match tokens with
    | .blockEntry :: rest =>
      match readUnless? handles fuel [.blockEntry, .key, .value, .blockEnd] true false rest with
      | some (item, rest) => readIndentlessItems? handles fuel (item :: done) rest
      | none => none
    | _ => some (done.reverse, tokens)

/-- Reads the entries of a block map. Each begins with a key mark, so a value without a key is
refused. -/
def readBlockEntries? (handles : Handles) :
    Nat → List (NamedNode × NamedNode) → List Token → Reading (List (NamedNode × NamedNode))
  | 0, _, _ => none
  | fuel + 1, done, tokens =>
    let ends : List Token := [.key, .value, .blockEnd]
    match tokens with
    | .blockEnd :: rest => some (done.reverse, rest)
    | .key :: rest =>
      match readUnless? handles fuel ends true true rest with
      | none => none
      | some (key, rest) =>
        match rest with
        | .value :: rest =>
          match readUnless? handles fuel ends true true rest with
          | some (value, rest) => readBlockEntries? handles fuel ((key, value) :: done) rest
          | none => none
        | _ => readBlockEntries? handles fuel ((key, missing) :: done) rest
    | _ => none

/-- Reads the items of a flow list; an item with a key is a map of one entry. -/
def readFlowItems? (handles : Handles) :
    Nat → (first : Bool) → List NamedNode → List Token → Reading (List NamedNode)
  | 0, _, _, _ => none
  | fuel + 1, first, done, tokens =>
    match tokens with
    | .flowSequenceEnd :: rest => some (done.reverse, rest)
    | _ =>
      let tokens? : Option (List Token) :=
        if first then some tokens
        else match tokens with
          | .flowEntry :: rest => some rest
          | _ => none
      match tokens? with
      | none => none
      | some (.flowSequenceEnd :: rest) => some (done.reverse, rest)
      | some (.key :: rest) =>
        match readPair? handles fuel rest with
        | some (pair, rest) => readFlowItems? handles fuel false (.mapping {} [pair] :: done) rest
        | none => none
      | some tokens =>
        match read? handles fuel false false tokens with
        | some (item, rest) => readFlowItems? handles fuel false (item :: done) rest
        | none => none

/-- Reads the entry of a flow list behind its key mark. A missing key takes the token that ends it
along, so a value mark that follows the key mark at once is lost. -/
def readPair? (handles : Handles) : Nat → List Token → Reading (NamedNode × NamedNode)
  | 0, _ => none
  | fuel + 1, tokens =>
    let key? : Reading NamedNode :=
      if endsValue [.value, .flowEntry, .flowSequenceEnd] tokens then some (missing, tokens.tail)
      else read? handles fuel false false tokens
    match key? with
    | none => none
    | some (key, .value :: rest) =>
      (readUnless? handles fuel [.flowEntry, .flowSequenceEnd] false false rest).map
        fun p => ((key, p.1), p.2)
    | some (key, rest) => some ((key, missing), rest)

/-- Reads the entries of a flow map. -/
def readFlowEntries? (handles : Handles) :
    Nat → (first : Bool) → List (NamedNode × NamedNode) → List Token →
      Reading (List (NamedNode × NamedNode))
  | 0, _, _, _ => none
  | fuel + 1, first, done, tokens =>
    match tokens with
    | .flowMappingEnd :: rest => some (done.reverse, rest)
    | _ =>
      let tokens? : Option (List Token) :=
        if first then some tokens
        else match tokens with
          | .flowEntry :: rest => some rest
          | _ => none
      match tokens? with
      | none => none
      | some (.flowMappingEnd :: rest) => some (done.reverse, rest)
      | some (.key :: rest) =>
        match readUnless? handles fuel [.value, .flowEntry, .flowMappingEnd] false false rest with
        | none => none
        | some (key, .value :: rest) =>
          match readUnless? handles fuel [.flowEntry, .flowMappingEnd] false false rest with
          | some (value, rest) => readFlowEntries? handles fuel false ((key, value) :: done) rest
          | none => none
        | some (key, rest) => readFlowEntries? handles fuel false ((key, missing) :: done) rest
      | some tokens =>
        match read? handles fuel false false tokens with
        | some (key, rest) => readFlowEntries? handles fuel false ((key, missing) :: done) rest
        | none => none
end

/-- Reads directives: whether a version was given, and the handles. -/
def readDirectives? : (versioned : Bool) → Handles → List Token → Option (Handles × List Token)
  | versioned, handles, .versionDirective major minor :: rest =>
    if versioned = false ∧ major = 1 ∧ (minor = 1 ∨ minor = 2) then
      readDirectives? true handles rest
    else none
  | versioned, handles, .tagDirective handle expansion :: rest =>
    if handles.any fun h => h.1 = handle then none
    else readDirectives? versioned (handles ++ [(handle, expansion)]) rest
  | _, handles, tokens => some (handles, tokens)

/-- Whether a document that was opened with a mark has no content. -/
def endsDocument : List Token → Bool
  | [] => true
  | .versionDirective _ _ :: _ => true
  | .tagDirective _ _ :: _ => true
  | .documentStart :: _ => true
  | .documentEnd :: _ => true
  | _ => false

/-- Handles that directives may set anew: the default ones count where no directive sets them. -/
def withDefaults (handles : Handles) : Handles := handles ++ defaultHandles

/-- Whether nothing but marks of document ends is left. -/
def endsText (tokens : List Token) : Bool := tokens.all (· = .documentEnd)

/-- The only document of a text: a node, or nothing if the text is empty. -/
def document? (tokens : List Token) : Option (Option NamedNode) :=
  let fuel := 4 * tokens.length + 8
  let opened? : Option (Handles × Bool × List Token) :=
    match tokens with
    | .versionDirective _ _ :: _ | .tagDirective _ _ :: _ | .documentStart :: _ =>
      (readDirectives? false [] tokens).bind fun (handles, tokens) =>
        match tokens with
        | .documentStart :: rest => some (handles, true, rest)
        | _ => none
    | _ => some ([], false, tokens)
  if tokens = [] then some none
  else
    opened?.bind fun (handles, marked, tokens) =>
      if marked ∧ endsDocument tokens then
        if endsText tokens then some (some missing) else none
      else
        (read? (withDefaults handles) fuel true false tokens).bind fun (node, rest) =>
          if endsText rest then some (some node) else none

end Node

end NotePress.Yaml
