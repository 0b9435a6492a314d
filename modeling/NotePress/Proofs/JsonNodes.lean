import NotePress.Proofs.JsonTokens
import NotePress.Yaml.Reader

/-!
# JSON read as YAML

The tokens of a value are read as its node, given a step for each of them (`read?_value`), and the
node has the value, with numbers read from their texts (`value?_nodeOf`). With the tokens of a
JSON text this is `read?_writePretty`: reading the JSON of a map as YAML gives what `Json.reread?`
makes of the map, if it is nested no deeper than the reader goes.
-/

namespace NotePress.Json

open Yaml (Token Node NamedNode NumberedNode Document)

/-! ### Nodes -/

mutual
/-- The node of a value. -/
def nodeOf {α : Type} : Data → Node α
  | .text t => .scalar {} t false
  | .list items => .sequence {} (itemNodes items)
  | .map entries => .mapping {} (entryNodes entries)
  | .tagged _ inner => nodeOf inner
  | d => .scalar {} (writeScalar d) true

def itemNodes {α : Type} : List Data → List (Node α)
  | [] => []
  | d :: rest => nodeOf d :: itemNodes rest

def entryNodes {α : Type} : List (Data × Data) → List (Node α × Node α)
  | [] => []
  | (k, v) :: rest => (nodeOf k, nodeOf v) :: entryNodes rest
end

/-- The tokens of items that others stand in front of. -/
def moreItems (items : List Data) : List Token := items.flatMap fun d => .flowEntry :: tokensOf d

/-- The tokens of an entry. -/
def entryToken (e : Data × Data) : List Token := .key :: tokensOf e.1 ++ .value :: tokensOf e.2

/-- The tokens of entries that others stand in front of. -/
def moreEntries (entries : List (Data × Data)) : List Token :=
  entries.flatMap fun e => .flowEntry :: entryToken e

theorem itemTokens_cons (d : Data) (rest : List Data) :
    itemTokens (d :: rest) = tokensOf d ++ moreItems rest := by
  induction rest generalizing d with
  | nil => simp [itemTokens, moreItems]
  | cons e rest ih => rw [itemTokens, ih]; simp [moreItems]; simp

theorem entryTokens_cons (e : Data × Data) (rest : List (Data × Data)) :
    entryTokens (e :: rest) = entryToken e ++ moreEntries rest := by
  induction rest generalizing e with
  | nil => simp [entryTokens, moreEntries, entryToken]
  | cons e' rest ih => rw [entryTokens, ih]; simp [moreEntries, entryToken]; simp

/-- The tokens of a value begin with a scalar or the mark of a collection. -/
inductive BeginsValue : List Token → Prop where
  | scalar (t : Text) (plain : Bool) (rest : List Token) : BeginsValue (.scalar t plain :: rest)
  | sequence (rest : List Token) : BeginsValue (.flowSequenceStart :: rest)
  | mapping (rest : List Token) : BeginsValue (.flowMappingStart :: rest)

theorem beginsValue : ∀ (d : Data) (rest : List Token), BeginsValue (tokensOf d ++ rest)
  | .text _, _ => .scalar ..
  | .list _, _ => .sequence _
  | .map _, _ => .mapping _
  | .tagged _ inner, rest => beginsValue inner rest
  | .null, _ => .scalar ..
  | .bool _, _ => .scalar ..
  | .int _, _ => .scalar ..
  | .float _ _, _ => .scalar ..

variable {handles : Node.Handles} {fuel : Nat} {rest tokens : List Token}

open Yaml.Node

/-- A value is read where no end stands. -/
theorem readUnless?_value {d : Data} {ends : List Token} {r : NamedNode × List Token}
    (hread : Node.read? handles fuel false false (tokensOf d ++ tokens) = some r)
    (hends : ∀ t ∈ ends, t = .value ∨ t = .flowEntry ∨ t = .flowMappingEnd) :
    readUnless? handles (fuel + 1) ends false false (tokensOf d ++ tokens) = some r := by
  have hbegins := beginsValue d tokens
  have hnot : endsValue ends (tokensOf d ++ tokens) = false := by
    generalize tokensOf d ++ tokens = ts at hbegins
    rw [Bool.eq_false_iff]
    intro hend
    cases hbegins <;>
      · rcases hends _ (List.contains_iff_mem.mp hend) with h | h | h <;> cases h
  rw [readUnless?, hnot, if_neg Bool.false_ne_true, hread]

/-- **An item is read** behind the comma in front of it. -/
theorem readFlowItems?_item {d : Data} {done : List NamedNode} {n : NamedNode}
    (hread : Node.read? handles fuel false false (tokensOf d ++ tokens) = some (n, tokens)) :
    readFlowItems? handles (fuel + 1) false done (.flowEntry :: (tokensOf d ++ tokens)) =
      readFlowItems? handles fuel false (n :: done) tokens := by
  have hbegins := beginsValue d tokens
  rw [readFlowItems?]
  generalize tokensOf d ++ tokens = ts at hread hbegins
  cases hbegins <;> simp [hread]

/-- The first item is read. -/
theorem readFlowItems?_first {d : Data} {n : NamedNode}
    (hread : Node.read? handles fuel false false (tokensOf d ++ tokens) = some (n, tokens)) :
    readFlowItems? handles (fuel + 1) true [] (tokensOf d ++ tokens) =
      readFlowItems? handles fuel false [n] tokens := by
  have hbegins := beginsValue d tokens
  generalize tokensOf d ++ tokens = ts at hread hbegins
  cases hbegins <;> simp [readFlowItems?, hread]

/-- **An entry is read**, the first one or one behind a comma. -/
theorem readFlowEntries?_entry {k v : Data} {done : List (NamedNode × NamedNode)}
    {nk nv : NamedNode} {front : List Token} {first : Bool}
    (hfront : front = if first then [] else [.flowEntry])
    (hkey : Node.read? handles fuel false false (tokensOf k ++ .value :: (tokensOf v ++ tokens)) =
      some (nk, .value :: (tokensOf v ++ tokens)))
    (hvalue : Node.read? handles fuel false false (tokensOf v ++ tokens) = some (nv, tokens)) :
    readFlowEntries? handles (fuel + 2) first done (front ++ (entryToken (k, v) ++ tokens)) =
      readFlowEntries? handles (fuel + 1) false ((nk, nv) :: done) tokens := by
  have hkey' := @readUnless?_value _ _ _ _ [.value, .flowEntry, .flowMappingEnd] _ hkey (by simp)
  have hvalue' := @readUnless?_value _ _ _ _ [.flowEntry, .flowMappingEnd] _ hvalue (by simp)
  have hsplit : entryToken (k, v) ++ tokens =
      .key :: (tokensOf k ++ .value :: (tokensOf v ++ tokens)) := by simp [entryToken]
  rw [hsplit, hfront]
  cases first <;> simp [readFlowEntries?, hkey', hvalue']

theorem length_tokensOf_pos (d : Data) : 0 < (tokensOf d).length := by
  have hbegins := beginsValue d []
  rw [List.append_nil] at hbegins
  generalize tokensOf d = ts at hbegins
  cases hbegins <;> simp

theorem read?_flowSequenceStart (block : Bool) (ts : List Token) :
    Node.read? handles (fuel + 1) block false (.flowSequenceStart :: ts) =
      (readFlowItems? handles fuel true [] ts).map fun p => (.sequence {} p.1, p.2) := rfl

theorem read?_flowMappingStart (block : Bool) (ts : List Token) :
    Node.read? handles (fuel + 1) block false (.flowMappingStart :: ts) =
      (readFlowEntries? handles fuel true [] ts).map fun p => (.mapping {} p.1, p.2) := rfl

mutual
/-- **A value is read as its node.** -/
theorem read?_value : ∀ {d : Data} {fuel : Nat}, (tokensOf d).length ≤ fuel → ∀ (block : Bool)
    (rest : List Token),
    Node.read? handles fuel block false (tokensOf d ++ rest) = some (nodeOf d, rest)
  | d, 0, hfuel, _, _ => absurd (length_tokensOf_pos d) (by omega)
  | .text _, fuel + 1, _, _, _ => rfl
  | .list [], fuel + 1, hfuel, block, rest => by
    simp only [tokensOf, itemTokens, List.length_append, List.length_cons, List.length_nil] at hfuel
    obtain ⟨fuel, rfl⟩ : ∃ n, fuel = n + 1 := ⟨fuel - 1, by omega⟩
    rfl
  | .list (d :: items), fuel + 1, hfuel, block, rest => by
    have hpos := length_tokensOf_pos d
    simp only [tokensOf, itemTokens_cons, List.length_append, List.length_cons, List.length_nil]
      at hfuel
    obtain ⟨fuel, rfl⟩ : ∃ n, fuel = n + 1 := ⟨fuel - 1, by omega⟩
    have hfirst := @read?_value d fuel (by omega) false (moreItems items ++ .flowSequenceEnd :: rest)
    have hmore := @read?_items items fuel (by omega) [nodeOf d] rest
    have hsplit : tokensOf (.list (d :: items)) ++ rest =
        .flowSequenceStart :: (tokensOf d ++ (moreItems items ++ .flowSequenceEnd :: rest)) := by
      simp [tokensOf, itemTokens_cons]
    rw [hsplit, read?_flowSequenceStart, readFlowItems?_first hfirst, hmore]
    rfl
  | .map [], fuel + 1, hfuel, block, rest => by
    simp only [tokensOf, entryTokens, List.length_append, List.length_cons, List.length_nil]
      at hfuel
    obtain ⟨fuel, rfl⟩ : ∃ n, fuel = n + 1 := ⟨fuel - 1, by omega⟩
    rfl
  | .map ((k, v) :: entries), fuel + 1, hfuel, block, rest => by
    simp only [tokensOf, entryTokens_cons, entryToken, List.length_append, List.length_cons,
      List.length_nil] at hfuel
    obtain ⟨fuel, rfl⟩ : ∃ n, fuel = n + 2 := ⟨fuel - 2, by omega⟩
    have hkey := @read?_value k fuel (by omega) false
      (.value :: (tokensOf v ++ (moreEntries entries ++ .flowMappingEnd :: rest)))
    have hvalue := @read?_value v fuel (by omega) false
      (moreEntries entries ++ .flowMappingEnd :: rest)
    have hmore := @read?_entries entries (fuel + 1) (by omega) [(nodeOf k, nodeOf v)] rest
    have hsplit : tokensOf (.map ((k, v) :: entries)) ++ rest = .flowMappingStart ::
        ([] ++ (entryToken (k, v) ++ (moreEntries entries ++ .flowMappingEnd :: rest))) := by
      simp [tokensOf, entryTokens_cons]
    rw [hsplit, read?_flowMappingStart,
      @readFlowEntries?_entry _ _ _ k v [] _ _ [] true rfl hkey hvalue, hmore]
    rfl
  | .tagged _ inner, fuel + 1, hfuel, block, rest => @read?_value inner (fuel + 1) hfuel block rest
  | .null, fuel + 1, _, _, _ => rfl
  | .bool _, fuel + 1, _, _, _ => rfl
  | .int _, fuel + 1, _, _, _ => rfl
  | .float _ _, fuel + 1, _, _, _ => rfl

theorem read?_items : ∀ {items : List Data} {fuel : Nat}, (moreItems items).length < fuel →
    ∀ (done : List NamedNode) (rest : List Token),
    readFlowItems? handles fuel false done (moreItems items ++ .flowSequenceEnd :: rest) =
      some (done.reverse ++ itemNodes items, rest)
  | _, 0, hfuel, _, _ => absurd hfuel (Nat.not_lt_zero _)
  | [], fuel + 1, _, done, rest => by
    rw [itemNodes, List.append_nil]
    rfl
  | d :: items, fuel + 1, hfuel, done, rest => by
    have hsplit : moreItems (d :: items) = .flowEntry :: (tokensOf d ++ moreItems items) := by
      simp [moreItems]
    rw [hsplit] at hfuel ⊢
    simp only [List.length_cons, List.length_append] at hfuel
    have hfirst := @read?_value d fuel (by omega) false (moreItems items ++ .flowSequenceEnd :: rest)
    have hmore := @read?_items items fuel (by omega) (nodeOf d :: done) rest
    rw [List.cons_append, List.append_assoc, readFlowItems?_item hfirst, hmore]
    simp [itemNodes]

theorem read?_entries : ∀ {entries : List (Data × Data)} {fuel : Nat},
    (moreEntries entries).length < fuel → ∀ (done : List (NamedNode × NamedNode))
    (rest : List Token),
    readFlowEntries? handles fuel false done (moreEntries entries ++ .flowMappingEnd :: rest) =
      some (done.reverse ++ entryNodes entries, rest)
  | _, 0, hfuel, _, _ => absurd hfuel (Nat.not_lt_zero _)
  | [], fuel + 1, _, done, rest => by
    rw [entryNodes, List.append_nil]
    rfl
  | (k, v) :: entries, fuel + 1, hfuel, done, rest => by
    have hsplit : moreEntries ((k, v) :: entries) =
        [.flowEntry] ++ (entryToken (k, v) ++ moreEntries entries) := by simp [moreEntries]
    rw [hsplit] at hfuel ⊢
    simp only [entryToken, List.length_cons, List.length_append] at hfuel
    obtain ⟨fuel, rfl⟩ : ∃ n, fuel = n + 1 := ⟨fuel - 1, by omega⟩
    have hkey := @read?_value k fuel (by omega) false
      (.value :: (tokensOf v ++ (moreEntries entries ++ .flowMappingEnd :: rest)))
    have hvalue := @read?_value v fuel (by omega) false
      (moreEntries entries ++ .flowMappingEnd :: rest)
    have hmore := @read?_entries entries (fuel + 1) (by omega) ((nodeOf k, nodeOf v) :: done) rest
    rw [List.append_assoc, List.append_assoc,
      @readFlowEntries?_entry _ _ _ k v done _ _ [.flowEntry] false rfl hkey hvalue, hmore]
    simp [entryNodes]
end

/-- The tokens of a map are those of a document. -/
theorem document?_map (entries : List (Data × Data)) :
    document? (tokensOf (.map entries)) = some (some (nodeOf (.map entries))) := by
  have hread : Node.read? (withDefaults []) (4 * (tokensOf (.map entries)).length + 8) true false
      (tokensOf (.map entries)) = some (nodeOf (.map entries), []) := by
    have h := @read?_value (withDefaults []) (.map entries)
      (4 * (tokensOf (.map entries)).length + 8) (by omega) true []
    rwa [List.append_nil] at h
  have hdocument : document? (tokensOf (.map entries)) =
      (Node.read? (withDefaults []) (4 * (tokensOf (.map entries)).length + 8) true false
        (tokensOf (.map entries))).bind fun p => if endsText p.2 then some (some p.1) else none := rfl
  rw [hdocument, hread]
  rfl

/-! ### Values -/

mutual
/-- No anchor is numbered in the node of a value. -/
theorem number?_nodeOf : ∀ (d : Data) (numbering : Yaml.Numbering),
    number? numbering (nodeOf d) = some (nodeOf d, numbering)
  | .text _, _ => by simp [nodeOf, number?, Yaml.Properties.number, Yaml.Numbering.add]
  | .list items, numbering => by
    simp [nodeOf, number?, Yaml.Properties.number, Yaml.Numbering.add,
      numberItems?_itemNodes items numbering]
  | .map entries, numbering => by
    simp [nodeOf, number?, Yaml.Properties.number, Yaml.Numbering.add,
      numberEntries?_entryNodes entries numbering]
  | .tagged _ inner, numbering => number?_nodeOf inner numbering
  | .null, _ => rfl
  | .bool _, _ => rfl
  | .int _, _ => rfl
  | .float _ _, _ => rfl

theorem numberItems?_itemNodes : ∀ (items : List Data) (numbering : Yaml.Numbering),
    numberItems? numbering (itemNodes items) = some (itemNodes items, numbering)
  | [], _ => rfl
  | d :: items, numbering => by
    simp [itemNodes, numberItems?, number?_nodeOf d numbering,
      numberItems?_itemNodes items numbering]

theorem numberEntries?_entryNodes : ∀ (entries : List (Data × Data)) (numbering : Yaml.Numbering),
    numberEntries? numbering (entryNodes entries) = some (entryNodes entries, numbering)
  | [], _ => rfl
  | (k, v) :: entries, numbering => by
    simp [entryNodes, numberEntries?, number?_nodeOf k numbering, number?_nodeOf v numbering,
      numberEntries?_entryNodes entries numbering]
end

mutual
/-- **What is read of the JSON of a value**: numbers as their texts are resolved, and no tags. -/
def reread? : Data → Option Data
  | .text t => some (.text t)
  | .list items => (rereadItems? items).map .list
  | .map entries => (rereadEntries? entries).map .map
  | .tagged _ inner => reread? inner
  | d => Yaml.resolvePlain? (writeScalar d)

def rereadItems? : List Data → Option (List Data)
  | [] => some []
  | d :: rest => (reread? d).bind fun d => (rereadItems? rest).map (d :: ·)

def rereadEntries? : List (Data × Data) → Option (List (Data × Data))
  | [] => some []
  | (k, v) :: rest => (reread? v).bind fun v => (rereadEntries? rest).map ((k, v) :: ·)
end

mutual
/-- How deep lists and maps are nested. -/
def nesting : Data → Nat
  | .list items => itemsNesting items + 1
  | .map entries => entriesNesting entries + 1
  | .tagged _ inner => nesting inner
  | _ => 0

def itemsNesting : List Data → Nat
  | [] => 0
  | d :: rest => max (nesting d) (itemsNesting rest)

def entriesNesting : List (Data × Data) → Nat
  | [] => 0
  | (_, v) :: rest => max (nesting v) (entriesNesting rest)
end

/-- Keys stay as they are, so they stay distinct. -/
theorem rereadEntries?_keys : ∀ {entries es : List (Data × Data)},
    rereadEntries? entries = some es → es.map (·.1) = entries.map (·.1)
  | [], es, h => by cases h; rfl
  | (k, v) :: rest, es, h => by
    obtain ⟨v', -, h⟩ := Option.bind_eq_some_iff.mp h
    obtain ⟨es', hes, rfl⟩ := Option.map_eq_some_iff.mp h
    rw [List.map_cons, List.map_cons, rereadEntries?_keys hes]

theorem distinctKeys_congr : ∀ {es es' : List (Data × Data)}, es.map (·.1) = es'.map (·.1) →
    Data.distinctKeys es = Data.distinctKeys es'
  | [], [], _ => rfl
  | (k, v) :: es, (k', v') :: es', h => by
    obtain ⟨rfl, hrest⟩ := List.cons.inj h
    have hany : ∀ es : List (Data × Data), (es.any fun e => Data.sameKey k e.1) =
        (es.map (·.1)).any (Data.sameKey k) := fun es => (List.any_map ..).symm
    rw [Data.distinctKeys, Data.distinctKeys, distinctKeys_congr hrest, hany, hany, hrest]

variable {doc : Document} {followed : Nat}

theorem value?_scalar (props : Yaml.Properties Nat) (value : Text) (plain : Bool) (depth : Nat) :
    doc.value? depth followed (.scalar props value plain) =
      (Yaml.resolveScalar? props.tag value plain).map fun v => (v, followed) := by
  rw [Document.value?, Document.content?]
  intro anchor h
  cases h

mutual
/-- **The node of a value has what is read of it** as its value. -/
theorem value?_nodeOf : ∀ {d : Data}, Readable d → ∀ {depth : Nat}, nesting d ≤ depth →
    doc.value? depth followed (nodeOf d) = (reread? d).map fun v => (v, followed)
  | .text t, _, depth, _ => value?_scalar {} t false depth
  | .list items, hd, 0, hdepth => absurd hdepth (by simp [nesting])
  | .list items, hd, depth + 1, hdepth => by
    have hitems := @items?_itemNodes items hd depth (Nat.le_of_succ_le_succ hdepth)
    rw [nodeOf, Document.value?, Document.content?, hitems, reread?]
    · cases rereadItems? items <;> rfl
    · nofun
  | .map entries, hd, 0, hdepth => absurd hdepth (by simp [nesting])
  | .map entries, hd, depth + 1, hdepth => by
    have hentries := @entries?_entryNodes entries hd.2 depth (Nat.le_of_succ_le_succ hdepth)
    rw [nodeOf, Document.value?, Document.content?, hentries, reread?]
    · cases hes : rereadEntries? entries with
      | none => rfl
      | some es =>
        have hdistinct : Data.distinctKeys es = true :=
          (distinctKeys_congr (rereadEntries?_keys hes)).trans hd.1
        simp [hdistinct, Yaml.withTag]
    · nofun
  | .tagged _ inner, hd, depth, hdepth => @value?_nodeOf inner hd depth hdepth
  | .null, _, depth, _ => value?_scalar {} (writeScalar .null) true depth
  | .bool b, _, depth, _ => value?_scalar {} (writeScalar (.bool b)) true depth
  | .int n, _, depth, _ => value?_scalar {} (writeScalar (.int n)) true depth
  | .float f x, _, depth, _ => value?_scalar {} (writeScalar (.float f x)) true depth

theorem items?_itemNodes : ∀ {items : List Data}, ReadableItems items → ∀ {depth : Nat},
    itemsNesting items ≤ depth →
    doc.items? depth followed (itemNodes items) = (rereadItems? items).map fun vs => (vs, followed)
  | [], _, _, _ => by rw [itemNodes, Document.items?]; rfl
  | d :: items, hd, depth, hdepth => by
    have hfirst := @value?_nodeOf d hd.1 depth (by simp [itemsNesting] at hdepth; omega)
    have hmore := @items?_itemNodes items hd.2 depth (by simp [itemsNesting] at hdepth; omega)
    rw [itemNodes, Document.items?, hfirst, rereadItems?]
    cases reread? d with
    | none => rfl
    | some v =>
      simp only [Option.map_some, Option.bind_some, hmore]
      cases rereadItems? items <;> rfl

theorem entries?_entryNodes : ∀ {entries : List (Data × Data)}, ReadableEntries entries →
    ∀ {depth : Nat}, entriesNesting entries ≤ depth →
    doc.entries? depth followed (entryNodes entries) =
      (rereadEntries? entries).map fun es => (es, followed)
  | [], _, _, _ => by rw [entryNodes, Document.entries?]; rfl
  | (k, v) :: entries, hd, depth, hdepth => by
    obtain ⟨t, rfl, -⟩ := hd.1
    have hkey : doc.value? depth followed (nodeOf (.text t)) = some (.text t, followed) :=
      value?_scalar {} t false depth
    have hvalue := @value?_nodeOf v hd.2.1 depth (by simp [entriesNesting] at hdepth; omega)
    have hmore := @entries?_entryNodes entries hd.2.2 depth
      (by simp [entriesNesting] at hdepth; omega)
    rw [entryNodes, Document.entries?, hkey, rereadEntries?]
    simp only [hvalue]
    cases reread? v with
    | none => rfl
    | some v =>
      simp only [Option.map_some, Option.bind_some, hmore]
      cases rereadEntries? entries <;> rfl
end

/-- **The JSON of a map is read as YAML**: what is read is the map, with its numbers read anew. -/
theorem read?_writePretty {entries : List (Data × Data)} (h : Readable (.map entries))
    (hdepth : nesting (.map entries) ≤ Yaml.depthLimit) :
    Yaml.read? (writePretty 0 (.map entries)) = reread? (.map entries) := by
  have hdocument : ((Yaml.tokens? (writePretty 0 (.map entries))).bind document?) =
      some (some (nodeOf (.map entries))) := by
    rw [tokens?_writePretty h, Option.bind_some, document?_map]
  unfold Yaml.read?
  rw [hdocument]
  simp only [Document.ofNode?, number?_nodeOf, Option.map_some, Option.bind_some]
  rw [value?_nodeOf h hdepth]
  cases reread? (.map entries) <;> rfl

end NotePress.Json
