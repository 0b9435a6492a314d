import NotePress.Collection.Basic

/-!
# Read-through caches

A cache remembers the texts that were read and the listings that were made. A text is read from the
collection only if the cache has none; failed reads are not remembered. Listings are kept for each
directory they were asked for.
-/

namespace NotePress

/-- Texts and listings seen so far. Each id and each directory stands once. -/
structure Cache where
  texts : List (DocumentId × Text)
  listings : List (Option Text × List DocumentId)

namespace Cache

/-- The cache that remembers nothing. -/
def empty : Cache := ⟨[], []⟩

/-- The text of a document, if it is remembered. -/
def get? (c : Cache) (id : DocumentId) : Option Text := c.texts.lookup id

/-- Whether a text is remembered. -/
def contains (c : Cache) (id : DocumentId) : Bool := (c.get? id).isSome

/-- Remembers a text in place of an older one. -/
def insert (c : Cache) (id : DocumentId) (text : Text) : Cache :=
  { c with texts := (id, text) :: c.texts.filter (·.1 ≠ id) }

/-- A cache that remembers some texts; the last one of an id counts. -/
def ofTexts (texts : List (DocumentId × Text)) : Cache :=
  texts.foldl (fun c t => c.insert t.1 t.2) empty

/-- The number of texts remembered. -/
def size (c : Cache) : Nat := c.texts.length

/-- The text of a document, from the cache or else from the collection. -/
def readOnce (c : Cache) (g : Collection) (id : DocumentId) : Except AccessError Text × Cache :=
  match c.get? id with
  | some text => (.ok text, c)
  | none =>
    match g.read id with
    | .ok text => (.ok text, c.insert id text)
    | .error e => (.error e, c)

/-- The listing of a directory, from the cache or else from the collection. -/
def listOnce (c : Cache) (g : Collection) (root : Option Text) : List DocumentId × Cache :=
  match c.listings.lookup root with
  | some listing => (listing, c)
  | none => (g.list root, { c with listings := (root, g.list root) :: c.listings })

/-- Every text and listing remembered is what the collection gives. -/
def Coherent (c : Cache) (g : Collection) : Prop :=
  (∀ id text, c.get? id = some text → g.read id = .ok text) ∧
    ∀ root listing, c.listings.lookup root = some listing → g.list root = listing

/-- What a remembering cache says after an insertion. -/
theorem get?_insert (c : Cache) (id other : DocumentId) (text : Text) :
    (c.insert id text).get? other = if other = id then some text else c.get? other := by
  unfold get? insert
  simp only [List.lookup_cons]
  by_cases h : other = id
  · simp [h]
  · simp only [beq_eq_false_iff_ne.2 h, h, if_false]
    induction c.texts with
    | nil => rfl
    | cons e rest ih =>
      obtain ⟨key, value⟩ := e
      by_cases hk : key = id
      · simp only [List.filter_cons, hk, ne_eq, not_true_eq_false, decide_false, Bool.false_eq_true,
          if_false, List.lookup_cons, beq_eq_false_iff_ne.2 h]
        exact ih
      · simp only [List.filter_cons, ne_eq, hk, not_false_eq_true, decide_true, if_true,
          List.lookup_cons]
        split
        · rfl
        · exact ih

/-- Reading through a coherent cache gives what the collection gives. -/
theorem readOnce_of_coherent {c : Cache} {g : Collection} (h : c.Coherent g) (id : DocumentId) :
    (c.readOnce g id).1 = g.read id := by
  unfold readOnce
  split
  · rename_i text ht
    rw [h.1 id text ht]
  · split <;> simp_all

end Cache

end NotePress
