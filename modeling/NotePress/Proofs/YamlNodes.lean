import NotePress.Proofs.BlockScan
import NotePress.Proofs.JsonNodes
import NotePress.Proofs.Lists

/-!
# Nodes of written YAML

Records hold scalars, lists of scalars, and maps (`Laid`). The tokens of such a value in a block
(`tokensOf`) are read as its node (`read?_value`), given a step for each entry of a map and for each
item of a list. The node has the value, with its numbers as they are resolved (`value?_nodeOf`).
-/

namespace NotePress

/-! ### Numbers of 64 bits -/

namespace Data

variable {number : Floating → Floating}

mutual
/-- A tree with numbers of 64 bits in place of its numbers. -/
def widen (number : Floating → Floating) : Data → Data
  | .float _ x => .float double (number x)
  | .list items => .list (widenItems number items)
  | .map entries => .map (widenEntries number entries)
  | .tagged tag inner => .tagged tag (widen number inner)
  | d => d

def widenItems (number : Floating → Floating) : List Data → List Data
  | [] => []
  | d :: rest => widen number d :: widenItems number rest

def widenEntries (number : Floating → Floating) : List (Data × Data) → List (Data × Data)
  | [] => []
  | (k, v) :: rest => (widen number k, widen number v) :: widenEntries number rest
end

@[simp] theorem widen_null : widen number .null = .null := rfl

@[simp] theorem widen_bool (b : Bool) : widen number (.bool b) = .bool b := rfl

@[simp] theorem widen_text (t : Text) : widen number (.text t) = .text t := rfl

@[simp] theorem widen_float (f : BinaryFormat) (x : Floating) :
    widen number (.float f x) = .float double (number x) := rfl

theorem widen_texts (ts : List Text) :
    widen number (.list (ts.map Data.text)) = .list (ts.map Data.text) := by
  have hitems : widenItems number (ts.map Data.text) = ts.map Data.text := by
    induction ts with
    | nil => rfl
    | cons t rest ih => rw [List.map_cons, widenItems, ih]; rfl
  rw [widen, hitems]

/-- The values of a map are widened one by one. -/
theorem widen_map {β : Type} (xs : List β) (key : β → Text) (value : β → Data) :
    widen number (.map (xs.map fun x => (.text (key x), value x))) =
      .map (xs.map fun x => (.text (key x), widen number (value x))) := by
  have hentries : widenEntries number (xs.map fun x => (.text (key x), value x)) =
      xs.map fun x => (.text (key x), widen number (value x)) := by
    induction xs with
    | nil => rfl
    | cons x rest ih => rw [List.map_cons, widenEntries, ih]; rfl
  rw [widen, hentries]

end Data

namespace Yaml

open Node

/-! ### Values of records -/

/-- The number of 64 bits that is read of one of 32 bits: of a finite one that of its shortest
decimal. -/
def reread : Floating → Floating
  | .finite negative m e => Floating.reread single negative m e
  | x => x

/-- **A scalar that is written and read back**: a number has 32 bits, and its text means one of
64. -/
def IsLeaf : Data → Prop
  | .null => True
  | .bool _ => True
  | .text _ => True
  | .float f x =>
    f = single ∧ resolvePlain? (NumberLayout.yaml.write f x) = some (.float double (reread x))
  | _ => False

/-- A number that is rounded back is written as a number. -/
theorem isLeaf_float {x : Floating} (h : (reread x).convert single = x) :
    IsLeaf (.float single x) := by
  refine ⟨rfl, (resolvePlain?_yaml single x).trans ?_⟩
  cases x with
  | nan => rfl
  | infinite negative => rfl
  | finite negative m e =>
    simp only [reread] at h ⊢
    cases hread : Floating.reread single negative m e with
    | infinite sign =>
      rw [hread] at h
      cases h
    | nan => rfl
    | finite _ _ _ => rfl

/-- **A value of a record**: a scalar, a list of scalars, or a map that is not empty and whose keys
are distinct texts. A key that does not stand on one line has a map. -/
inductive Laid : Data → Prop where
  | leaf {d : Data} (h : IsLeaf d) : Laid d
  | list {items : List Data} (h : ∀ d ∈ items, IsLeaf d) : Laid (.list items)
  | map {entries : List (Data × Data)} (hne : entries ≠ [])
      (hdistinct : Data.distinctKeys entries = true)
      (hkeys : ∀ e ∈ entries, ∃ t, e.1 = .text t)
      (hlong : ∀ e ∈ entries, isSimpleKey e.1 = false → ∃ es, e.2 = .map es)
      (hvalues : ∀ e ∈ entries, Laid e.2) : Laid (.map entries)

/-! ### Tokens -/

/-- The token of a scalar. -/
def scalarToken (isKey : Bool) : Data → Token
  | .text t => .scalar t (styleOf isKey t = .plain)
  | d => .scalar (writeScalar isKey 0 d) true

/-- The tokens of the items of a list. -/
def itemTokens (items : List Data) : List Token :=
  items.flatMap fun d => [.blockEntry, scalarToken false d]

mutual
/-- The tokens of a value. -/
def tokensOf : Data → List Token
  | .list [] => [.flowSequenceStart, .flowSequenceEnd]
  | .list (d :: items) => itemTokens (d :: items)
  | .map entries => .blockMappingStart :: entryTokens entries ++ [.blockEnd]
  | d => [scalarToken false d]

/-- The tokens of the entries of a map. -/
def entryTokens : List (Data × Data) → List Token
  | [] => []
  | (k, v) :: rest =>
    .key :: scalarToken (isSimpleKey k) k :: .value :: (tokensOf v ++ entryTokens rest)
end

/-! ### Nodes -/

/-- The node of a scalar. -/
def scalarNode {α : Type} (isKey : Bool) : Data → Node α
  | .text t => .scalar {} t (styleOf isKey t = .plain)
  | d => .scalar {} (writeScalar isKey 0 d) true

mutual
/-- The node of a value. -/
def nodeOf {α : Type} : Data → Node α
  | .list items => .sequence {} (items.map (scalarNode false))
  | .map entries => .mapping {} (entryNodes entries)
  | d => scalarNode false d

def entryNodes {α : Type} : List (Data × Data) → List (Node α × Node α)
  | [] => []
  | (k, v) :: rest => (scalarNode (isSimpleKey k) k, nodeOf v) :: entryNodes rest
end

variable {handles : Handles} {fuel : Nat} {rest tokens : List Token} {d k v : Data}

theorem IsLeaf.tokensOf (h : IsLeaf d) : tokensOf d = [scalarToken false d] := by
  cases d with
  | list items => cases h
  | map entries => cases h
  | _ => rfl

theorem IsLeaf.nodeOf {α : Type} (h : IsLeaf d) : (nodeOf d : Node α) = scalarNode false d := by
  cases d with
  | list items => cases h
  | map entries => cases h
  | _ => rfl

theorem exists_scalarToken (isKey : Bool) (d : Data) : ∃ t plain,
    scalarToken isKey d = .scalar t plain ∧ ∀ α, scalarNode (α := α) isKey d = .scalar {} t plain := by
  cases d <;> exact ⟨_, _, rfl, fun _ => rfl⟩

/-- A scalar is read. -/
theorem read?_scalarToken (isKey block indentless : Bool) :
    Node.read? handles (fuel + 1) block indentless (scalarToken isKey d :: rest) =
      some (scalarNode isKey d, rest) := by
  obtain ⟨t, plain, htoken, hnode⟩ := exists_scalarToken isKey d
  rw [htoken, hnode]
  rfl

/-! ### Reading nodes -/

/-- The tokens of a value begin with none that ends the value in front of it. -/
theorem exists_tokensOf (h : Laid d) : ∃ t ts, tokensOf d = t :: ts ∧
    t ≠ .key ∧ t ≠ .value ∧ t ≠ .blockEnd := by
  cases h with
  | leaf h =>
    obtain ⟨t, plain, htoken, -⟩ := exists_scalarToken false d
    exact ⟨_, [], h.tokensOf, by rw [htoken]; exact ⟨nofun, nofun, nofun⟩⟩
  | list h =>
    rename_i items
    cases items with
    | nil => exact ⟨_, _, rfl, nofun, nofun, nofun⟩
    | cons d items => exact ⟨_, _, rfl, nofun, nofun, nofun⟩
  | map => exact ⟨_, _, rfl, nofun, nofun, nofun⟩

/-- A value is read where no end stands. -/
theorem readUnless?_value {n : NamedNode} {indentless : Bool} (h : Laid d)
    (hread : Node.read? handles fuel true indentless (tokensOf d ++ tokens) = some (n, tokens)) :
    readUnless? handles (fuel + 1) [.key, .value, .blockEnd] true indentless (tokensOf d ++ tokens) =
      some (n, tokens) := by
  obtain ⟨t, ts, htokens, hkey, hvalue, hend⟩ := exists_tokensOf h
  rw [htokens] at hread ⊢
  have hnot : endsValue [.key, .value, .blockEnd] (t :: ts ++ tokens) = false := by
    simp [endsValue, hkey, hvalue, hend]
  rw [readUnless?, hnot, if_neg Bool.false_ne_true, hread]

/-- A scalar is read where no end stands. -/
theorem readUnless?_scalarToken {ends : List Token} (isKey block indentless : Bool)
    (hends : ∀ t plain, Token.scalar t plain ∉ ends) :
    readUnless? handles (fuel + 2) ends block indentless (scalarToken isKey d :: rest) =
      some (scalarNode isKey d, rest) := by
  have hnot : endsValue ends (scalarToken isKey d :: rest) = false := by
    obtain ⟨t, plain, htoken, -⟩ := exists_scalarToken isKey d
    simpa [endsValue, htoken] using hends t plain
  rw [readUnless?, hnot, if_neg Bool.false_ne_true, read?_scalarToken]

/-- **Items are read**, up to what is no item. -/
theorem readIndentlessItems?_items {items : List Data} {done : List NamedNode}
    (hrest : rest.head? ≠ some .blockEntry) (hfuel : items.length + 2 ≤ fuel) :
    readIndentlessItems? handles fuel done (itemTokens items ++ rest) =
      some (done.reverse ++ items.map (scalarNode false), rest) := by
  induction items generalizing done fuel with
  | nil =>
    obtain ⟨fuel, rfl⟩ : ∃ n, fuel = n + 1 := ⟨fuel - 1, by omega⟩
    cases rest with
    | nil => simp [itemTokens, readIndentlessItems?]
    | cons t rest =>
      have ht : t ≠ .blockEntry := fun h => hrest (by rw [h]; rfl)
      cases t <;> first | exact absurd rfl ht | simp [itemTokens, readIndentlessItems?]
  | cons d items ih =>
    rw [List.length_cons] at hfuel
    obtain ⟨fuel, rfl⟩ : ∃ n, fuel = n + 3 := ⟨fuel - 3, by omega⟩
    have hsplit : itemTokens (d :: items) ++ rest =
        .blockEntry :: scalarToken false d :: (itemTokens items ++ rest) := rfl
    rw [hsplit, readIndentlessItems?, readUnless?_scalarToken _ _ _ (by simp)]
    simp only
    rw [ih (by omega)]
    simp

/-- **An entry is read.** -/
theorem readBlockEntries?_entry {done : List (NamedNode × NamedNode)} {nv : NamedNode}
    (isKey : Bool) (hv : Laid v)
    (hvalue : Node.read? handles (fuel + 1) true true (tokensOf v ++ tokens) = some (nv, tokens)) :
    readBlockEntries? handles (fuel + 3) done
        (.key :: scalarToken isKey k :: .value :: (tokensOf v ++ tokens)) =
      readBlockEntries? handles (fuel + 2) ((scalarNode isKey k, nv) :: done) tokens := by
  have hkey := @readUnless?_scalarToken handles fuel (.value :: (tokensOf v ++ tokens)) k
    [.key, .value, .blockEnd] isKey true true (by simp)
  rw [readBlockEntries?]
  simp only [hkey, readUnless?_value hv hvalue]

/-- The entries of a map are read up to the end of the block, if their values are. -/
theorem readBlockEntries?_entries {entries : List (Data × Data)}
    {done : List (NamedNode × NamedNode)} (hlaid : ∀ e ∈ entries, Laid e.2)
    (hvalues : ∀ e ∈ entries, ∀ {fuel : Nat} {rest : List Token},
      2 * (tokensOf e.2).length ≤ fuel → rest.head? ≠ some .blockEntry →
      Node.read? handles fuel true true (tokensOf e.2 ++ rest) = some (nodeOf e.2, rest))
    (hfuel : 2 * (entryTokens entries).length < fuel) :
    readBlockEntries? handles fuel done (entryTokens entries ++ .blockEnd :: rest) =
      some (done.reverse ++ entryNodes entries, rest) := by
  induction entries generalizing done fuel with
  | nil =>
    obtain ⟨fuel, rfl⟩ : ∃ n, fuel = n + 1 := ⟨fuel - 1, by omega⟩
    simp [entryTokens, entryNodes, readBlockEntries?]
  | cons e entries ih =>
    obtain ⟨k, v⟩ := e
    obtain ⟨hv, hlaid⟩ := List.forall_mem_cons.mp hlaid
    obtain ⟨hvalue, hvalues⟩ := List.forall_mem_cons.mp hvalues
    have hsplit : entryTokens ((k, v) :: entries) ++ .blockEnd :: rest =
        .key :: scalarToken (isSimpleKey k) k :: .value ::
          (tokensOf v ++ (entryTokens entries ++ .blockEnd :: rest)) := by simp [entryTokens]
    simp only [entryTokens, List.length_cons, List.length_append] at hfuel
    obtain ⟨fuel, rfl⟩ : ∃ n, fuel = n + 3 := ⟨fuel - 3, by omega⟩
    have hends : (entryTokens entries ++ .blockEnd :: rest).head? ≠ some .blockEntry := by
      cases entries <;> simp [entryTokens]
    have hread := @hvalue (fuel + 1) (entryTokens entries ++ .blockEnd :: rest)
      (show 2 * (tokensOf v).length ≤ fuel + 1 by omega) hends
    rw [hsplit, readBlockEntries?_entry _ hv hread, ih hlaid hvalues (by omega)]
    simp [entryNodes]

/-- **A value is read as its node.** A map need not be the value of an entry. -/
theorem read?_value (h : Laid d) (indentless : Bool) (hmap : indentless = true ∨ ∃ es, d = .map es)
    (hfuel : 2 * (tokensOf d).length ≤ fuel) (hrest : rest.head? ≠ some .blockEntry) :
    Node.read? handles fuel true indentless (tokensOf d ++ rest) = some (nodeOf d, rest) := by
  induction h generalizing fuel rest indentless with
  | leaf h =>
    rw [h.tokensOf, List.length_singleton] at hfuel
    obtain ⟨fuel, rfl⟩ : ∃ n, fuel = n + 1 := ⟨fuel - 1, by omega⟩
    rw [h.tokensOf, h.nodeOf]
    exact read?_scalarToken false true indentless
  | @list items h =>
    obtain rfl := hmap.resolve_right (by simp)
    cases items with
    | nil =>
      obtain ⟨fuel, rfl⟩ : ∃ n, fuel = n + 2 := ⟨fuel - 2, by simp [tokensOf] at hfuel; omega⟩
      rfl
    | cons d items =>
      have hlength : (itemTokens items).length = 2 * items.length := by
        simp [itemTokens, Nat.mul_comm]
      have htokens : tokensOf (.list (d :: items)) =
          .blockEntry :: scalarToken false d :: itemTokens items := rfl
      rw [htokens, List.length_cons, List.length_cons, hlength] at hfuel
      obtain ⟨fuel, rfl⟩ : ∃ n, fuel = n + 1 := ⟨fuel - 1, by omega⟩
      have hitems := @readIndentlessItems?_items handles fuel rest (d :: items) [] hrest
        (by rw [List.length_cons]; omega)
      have hread : Node.read? handles (fuel + 1) true true (tokensOf (.list (d :: items)) ++ rest) =
          (readIndentlessItems? handles fuel [] (itemTokens (d :: items) ++ rest)).map fun p =>
            (.sequence {} p.1, p.2) := rfl
      rw [hread, hitems]
      rfl
  | @map entries hne hdistinct hkeys hlong hvalues ih =>
    simp only [tokensOf, List.length_cons, List.length_append] at hfuel
    obtain ⟨fuel, rfl⟩ : ∃ n, fuel = n + 1 := ⟨fuel - 1, by omega⟩
    have hread : Node.read? handles (fuel + 1) true indentless (tokensOf (.map entries) ++ rest) =
        (readBlockEntries? handles fuel [] (entryTokens entries ++ [.blockEnd] ++ rest)).map fun p =>
          (.mapping {} p.1, p.2) := rfl
    rw [hread, List.append_assoc, List.singleton_append,
      readBlockEntries?_entries hvalues
        (fun e he => fun hfuel hrest => ih e he true (.inl rfl) hfuel hrest) (by omega)]
    rfl

/-- **The tokens of a map are those of a document.** -/
theorem document?_map {entries : List (Data × Data)} (h : Laid (.map entries)) :
    document? (tokensOf (.map entries)) = some (some (nodeOf (.map entries))) := by
  have hread := @read?_value (withDefaults []) (4 * (tokensOf (.map entries)).length + 8) []
    (.map entries) h false (.inr ⟨entries, rfl⟩) (by omega) (by simp)
  rw [List.append_nil] at hread
  have hdocument : document? (tokensOf (.map entries)) =
      (Node.read? (withDefaults []) (4 * (tokensOf (.map entries)).length + 8) true false
        (tokensOf (.map entries))).bind fun p => if endsText p.2 then some (some p.1) else none := rfl
  rw [hdocument, hread]
  rfl

/-! ### Values of nodes -/

theorem number?_scalarNode (isKey : Bool) (d : Data) (numbering : Numbering) :
    number? numbering (scalarNode isKey d) = some (scalarNode isKey d, numbering) := by
  obtain ⟨t, plain, -, hnode⟩ := exists_scalarToken isKey d
  rw [hnode, hnode]
  rfl

theorem numberItems?_scalarNodes (items : List Data) (numbering : Numbering) :
    numberItems? numbering (items.map (scalarNode false)) =
      some (items.map (scalarNode false), numbering) := by
  induction items with
  | nil => rfl
  | cons d items ih => simp [numberItems?, number?_scalarNode, ih]

/-- No anchor is numbered in the node of a value. -/
theorem number?_nodeOf (h : Laid d) (numbering : Numbering) :
    number? numbering (nodeOf d) = some (nodeOf d, numbering) := by
  induction h generalizing numbering with
  | leaf h =>
    rw [h.nodeOf, h.nodeOf]
    exact number?_scalarNode false _ numbering
  | list h =>
    simp [nodeOf, number?, Properties.number, Numbering.add, numberItems?_scalarNodes]
  | @map entries hne hdistinct hkeys hlong hvalues ih =>
    have hentries : ∀ es : List (Data × Data), (∀ e ∈ es, ∀ numbering,
        number? numbering (nodeOf e.2) = some (nodeOf e.2, numbering)) →
        numberEntries? numbering (entryNodes es) = some (entryNodes es, numbering) := by
      intro es hes
      induction es with
      | nil => rfl
      | cons e es ihes =>
        obtain ⟨he, hes⟩ := List.forall_mem_cons.mp hes
        simp [entryNodes, numberEntries?, number?_scalarNode, he, ihes hes]
    simp [nodeOf, number?, Properties.number, Numbering.add, hentries entries ih]

theorem eq_of_resolvePlain?_text {t u : Text} (h : resolvePlain? t = some (.text u)) : u = t := by
  unfold resolvePlain? at h
  repeat' split at h
  all_goals cases h
  rfl

/-- A text that stands without quotes is taken for that text. -/
theorem resolvePlain?_of_plain {isKey : Bool} {t : Text} (h : styleOf isKey t = .plain) :
    resolvePlain? t = some (.text t) := by
  have hadmits := admits_styleOf isKey t
  rw [h] at hadmits
  have hreads : readsAsText t = true := hadmits.1
  unfold readsAsText at hreads
  split at hreads
  · rename_i u hu
    rw [hu, eq_of_resolvePlain?_text hu]
  · cases hreads

variable {doc : Document} {followed : Nat}

/-- **A scalar means what was written**, a number one of 64 bits. -/
theorem value?_scalarNode (isKey : Bool) (h : IsLeaf d) (depth : Nat) :
    doc.value? depth followed (scalarNode isKey d) = some (d.widen reread, followed) := by
  cases d with
  | null => exact Json.value?_scalar {} _ true depth
  | bool b =>
    refine (Json.value?_scalar {} _ true depth).trans ?_
    cases b <;> rfl
  | text t =>
    have hresolve : resolveScalar? none t (styleOf isKey t = .plain) = some (.text t) := by
      by_cases hplain : styleOf isKey t = .plain
      · simpa [resolveScalar?, hplain] using resolvePlain?_of_plain hplain
      · simp [resolveScalar?, hplain]
    refine (Json.value?_scalar {} t _ depth).trans ?_
    rw [hresolve]
    rfl
  | float f x =>
    obtain ⟨rfl, hread⟩ := h
    have hresolve : resolveScalar? none (NumberLayout.yaml.write single x) true =
        some (.float double (reread x)) := by
      simp only [resolveScalar?, hread, if_true]
    refine (Json.value?_scalar {} _ true depth).trans ?_
    rw [show writeScalar isKey 0 (.float single x) = NumberLayout.yaml.write single x from rfl,
      hresolve]
    rfl
  | int n => cases h
  | list items => cases h
  | map entries => cases h
  | tagged tag inner => cases h

theorem items?_scalarNodes {items : List Data} (h : ∀ d ∈ items, IsLeaf d) (depth : Nat) :
    doc.items? depth followed (items.map (scalarNode false)) =
      some (Data.widenItems reread items, followed) := by
  induction items with
  | nil => rw [List.map_nil, Document.items?]; rfl
  | cons d items ih =>
    obtain ⟨hd, hitems⟩ := List.forall_mem_cons.mp h
    rw [List.map_cons, Document.items?, value?_scalarNode false hd]
    simp only [ih hitems]
    rfl

/-- Keys are texts, and stay as they are. -/
theorem keys_widenEntries {entries : List (Data × Data)} (h : ∀ e ∈ entries, ∃ t, e.1 = .text t) :
    (Data.widenEntries reread entries).map (·.1) = entries.map (·.1) := by
  induction entries with
  | nil => rfl
  | cons e entries ih =>
    obtain ⟨⟨t, ht⟩, hentries⟩ := List.forall_mem_cons.mp h
    obtain ⟨k, v⟩ := e
    obtain rfl : k = .text t := ht
    rw [Data.widenEntries, List.map_cons, List.map_cons, ih hentries]
    rfl

/-- The entries of a map have their values, if the nodes of the values do. -/
theorem entries?_entryNodes {entries : List (Data × Data)} {depth : Nat}
    (hkeys : ∀ e ∈ entries, ∃ t, e.1 = .text t)
    (hvalues : ∀ e ∈ entries, Json.nesting e.2 ≤ depth →
      doc.value? depth followed (nodeOf e.2) = some (e.2.widen reread, followed))
    (hdepth : Json.entriesNesting entries ≤ depth) :
    doc.entries? depth followed (entryNodes entries) =
      some (Data.widenEntries reread entries, followed) := by
  induction entries with
  | nil => rw [entryNodes, Document.entries?]; rfl
  | cons e entries ih =>
    obtain ⟨k, v⟩ := e
    obtain ⟨⟨t, ht⟩, hkeys'⟩ := List.forall_mem_cons.mp hkeys
    obtain ⟨hv, hvalues'⟩ := List.forall_mem_cons.mp hvalues
    obtain rfl : k = .text t := ht
    simp only [Json.entriesNesting] at hdepth
    have hkey : IsLeaf (.text t) := trivial
    rw [entryNodes, Document.entries?, value?_scalarNode _ hkey]
    simp only [hv (show Json.nesting v ≤ depth by omega), ih hkeys' hvalues' (by omega)]
    rfl

/-- **The node of a value has the value**, with its numbers widened. -/
theorem value?_nodeOf (h : Laid d) {depth : Nat} (hdepth : Json.nesting d ≤ depth) :
    doc.value? depth followed (nodeOf d) = some (d.widen reread, followed) := by
  induction h generalizing depth with
  | leaf h =>
    rw [h.nodeOf]
    exact value?_scalarNode false h depth
  | @list items h =>
    obtain ⟨depth, rfl⟩ : ∃ n, depth = n + 1 := ⟨depth - 1, by simp [Json.nesting] at hdepth; omega⟩
    rw [nodeOf, Document.value?, Document.content?, items?_scalarNodes h]
    · rfl
    · nofun
  | @map entries hne hdistinct hkeys hlong hvalues ih =>
    obtain ⟨depth, rfl⟩ : ∃ n, depth = n + 1 := ⟨depth - 1, by simp [Json.nesting] at hdepth; omega⟩
    have hkeep : Data.distinctKeys (Data.widenEntries reread entries) = true :=
      (Json.distinctKeys_congr (keys_widenEntries hkeys)).trans hdistinct
    rw [nodeOf, Document.value?, Document.content?,
      entries?_entryNodes hkeys (fun e he => ih e he) (Nat.le_of_succ_le_succ hdepth)]
    · simp [hkeep, withTag, Data.widen]
    · nofun

/-- **A text with the tokens of a map is read as the map**, with its numbers widened. -/
theorem read?_of_tokens? {t : Text} {entries : List (Data × Data)} (h : Laid (.map entries))
    (hdepth : Json.nesting (.map entries) ≤ depthLimit)
    (htokens : tokens? t = some (tokensOf (.map entries))) :
    read? t = some (Data.widen reread (.map entries)) := by
  have hdocument : (tokens? t).bind document? = some (some (nodeOf (.map entries))) := by
    rw [htokens, Option.bind_some, document?_map h]
  unfold read?
  rw [hdocument]
  simp only [Document.ofNode?, number?_nodeOf h, Option.map_some, Option.bind_some]
  rw [value?_nodeOf h hdepth]
  rfl

end Yaml

end NotePress
