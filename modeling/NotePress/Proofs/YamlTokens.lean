import NotePress.Proofs.ScalarStyles

/-!
# The tokens of written YAML

The lines of a map's entries and of a list's items are scanned one by one: `ScannedLine` says so of
a line, wherever it stands at its column, and lines are put together by `ScannedLine.append`. By
induction on the value, the lines of every map of a record are scanned as the tokens of its entries
(`Laid.scannedLine`), so `tokens?_write`: scanning what is written of a map gives the tokens of the
map.
-/

namespace NotePress.Yaml

open Scanner (Scans Stands standing)

variable {opens : Bool} {column : Nat} {w v : Text} {ts us : List Token} {t : Text} {d : Data}

/-- What indents a line may stand in a text. -/
theorem isAllowed_of_mem_replicate {n : Nat} {y : Char} (hy : y ∈ List.replicate n ' ') :
    isAllowed y = true := by
  rw [List.eq_of_mem_replicate hy]
  rfl

theorem endLine_besideMark (hw : w ≠ []) :
    endLine (besideMark w) = ' ' :: (w ++ closing w) := by
  have hclosing : closing (' ' :: w) = closing w := closing_append hw [' ']
  rw [besideMark, if_neg hw, ← hclosing]
  unfold endLine closing
  split <;> simp

/-! ### Lines -/

/-- **A line is scanned**, with the lines that belong to it, wherever it stands at a column; `opens`
says whether the block of a map may be opened by it. -/
structure ScannedLine (opens : Bool) (column : Nat) (w : Text) (ts : List Token) : Prop where
  begins : ∃ x tail, w = x :: tail ∧ isLead x = true
  allowed : ∀ x ∈ w, isAllowed x = true
  scans : ∀ ⦃s : Scanner⦄ ⦃b : Blocks⦄ ⦃next : Nat⦄ ⦃rest : Text⦄,
    s.Stands column true (w ++ (List.replicate next ' ' ++ rest)) b →
    b.indent ≤ (column : Int) → (opens = false → b.indent = column) → next ≤ column →
    (∀ x ∈ rest.head?, isLead x = true) →
    ∃ s', Scans w s s' ∧ s'.Stands next true rest (((b.openMap column).add ts).close next)

/-- **What stands behind a colon is scanned**, up to the end of its lines. -/
structure ScannedBeside (column : Nat) (w : Text) (ts : List Token) : Prop where
  begins : ∃ y tail, w = y :: tail ∧ (isSpaceTab y = true ∨ isBreak y = true)
  allowed : ∀ x ∈ w, isAllowed x = true
  scans : ∀ ⦃c : Cursor⦄ ⦃b : Blocks⦄ ⦃next : Nat⦄ ⦃rest : Text⦄,
    c.rest = w ++ (List.replicate next ' ' ++ rest) → b.indent = column → column < c.column →
    next ≤ column → (∀ x ∈ rest.head?, isLead x = true) →
    ∃ s', Scans w (standing c false b) s' ∧ s'.Stands next true rest ((b.add ts).close next)

/-- **Lines are scanned one by one.** -/
theorem ScannedLine.append (h : ScannedLine opens column w ts)
    (h' : ScannedLine opens column v us) :
    ScannedLine opens column (w ++ (List.replicate column ' ' ++ v)) (ts ++ us) := by
  obtain ⟨x, tail, rfl, hx⟩ := h.begins
  obtain ⟨y, tail', rfl, hy⟩ := h'.begins
  refine ⟨⟨x, _, rfl, hx⟩, ?_, ?_⟩
  · simp only [List.forall_mem_append]
    exact ⟨h.allowed, fun _ => isAllowed_of_mem_replicate, h'.allowed⟩
  · intro s b next rest hs hindent hopens hnext hlead
    rw [List.append_assoc, List.append_assoc] at hs
    -- the first line opens the block, and the second one finds it open
    obtain ⟨s₁, hscans₁, hs₁⟩ := h.scans hs hindent hopens (Nat.le_refl _)
      (by rintro _ ⟨⟩; exact hy)
    have hopen : ((b.openMap column).add ts).indent = column := Blocks.indent_openMap hindent
    rw [Blocks.close_of_le hopen.le] at hs₁
    obtain ⟨s₂, hscans₂, hs₂⟩ := h'.scans hs₁ hopen.le (fun _ => hopen) hnext hlead
    rw [Blocks.openMap_of_le hopen.ge, Blocks.add_add] at hs₂
    exact ⟨s₂, (hscans₁.append hscans₂).mono (by simp), hs₂⟩

/-- Lines that are indented to a column. -/
def indentLines (column : Nat) (ws : List Text) : Text :=
  ws.flatMap fun w => List.replicate column ' ' ++ w

theorem drop_indentLines (column : Nat) (w : Text) (ws : List Text) :
    (indentLines column (w :: ws)).drop column = w ++ indentLines column ws := by
  rw [indentLines, List.flatMap_cons, List.append_assoc, List.drop_left' (by simp)]
  rfl

/-- All lines but the first one are indented behind the lines in front of them. -/
theorem indentLines_eq {ws : List Text} (hne : ws ≠ []) (column : Nat) :
    indentLines column ws = List.replicate column ' ' ++ (indentLines column ws).drop column := by
  obtain ⟨w, ws, rfl⟩ := List.exists_cons_of_ne_nil hne
  rw [drop_indentLines, indentLines, List.flatMap_cons, List.append_assoc]
  rfl

/-- **All lines are scanned**, if each of them is. -/
theorem scannedLine_indentLines {α : Type} {xs : List α} (hne : xs ≠ []) {line : α → Text}
    {tokens : α → List Token} (h : ∀ x ∈ xs, ScannedLine opens column (line x) (tokens x)) :
    ScannedLine opens column ((indentLines column (xs.map line)).drop column)
      (xs.flatMap tokens) := by
  induction xs with
  | nil => exact absurd rfl hne
  | cons x xs ih =>
    obtain ⟨hx, hxs⟩ := List.forall_mem_cons.mp h
    rw [List.map_cons, drop_indentLines, List.flatMap_cons]
    by_cases hlast : xs = []
    · subst hlast
      simpa [indentLines] using hx
    · rw [indentLines_eq (by simpa using hlast)]
      exact hx.append (ih hlast hxs)

/-! ### Items of lists -/

theorem writeValue_leaf (h : IsLeaf d) (m : Nat) : writeValue m d =
    ' ' :: (writeScalar false (m + 2) d ++ closing (writeScalar false (m + 2) d)) := by
  rw [← endLine_besideMark (writtenAs_scalar h m).ne_nil]
  cases d with
  | list items => cases h
  | map entries => cases h
  | tagged tag inner => cases h
  | _ => rfl

theorem writeNested_leaf (h : IsLeaf d) (m : Nat) : writeNested m d = writeValue m d := by
  cases d with
  | list items => cases h
  | map entries => cases h
  | tagged tag inner => cases h
  | _ => rfl

theorem isAllowed_of_mem_closing {y : Char} (hy : y ∈ closing w) : isAllowed y = true := by
  unfold closing at hy
  split at hy
  · cases hy
  · rw [List.mem_singleton.mp hy]
    rfl

theorem isAllowed_of_mem_leaf (h : IsLeaf d) (m : Nat) :
    ∀ y ∈ writeValue m d, isAllowed y = true := by
  rw [writeValue_leaf h]
  simp only [List.forall_mem_cons, List.forall_mem_append]
  exact ⟨rfl, (writtenAs_scalar h m).isAllowed, fun y => isAllowed_of_mem_closing⟩

/-- **An item of a list is scanned.** -/
theorem scannedLine_item (h : IsLeaf d) (m : Nat) :
    ScannedLine false m ('-' :: writeNested m d) [.blockEntry, scalarToken false d] := by
  rw [writeNested_leaf h]
  refine ⟨⟨_, _, rfl, rfl⟩, List.forall_mem_cons.mpr ⟨rfl, isAllowed_of_mem_leaf h m⟩, ?_⟩
  intro s b next rest hs hle hopens hnext hlead
  have hindent := hopens rfl
  rw [writeValue_leaf h] at hs ⊢
  simp only [List.cons_append, List.append_assoc] at hs
  obtain ⟨s₁, hscans₁, hs₁⟩ := hs.exists_dash hindent
  obtain ⟨s₂, hscans₂, hs₂⟩ :=
    hs₁.exists_scalar (writtenAs_scalar h m) hindent (by omega) hnext hlead
  rw [Blocks.openMap_of_le hindent.ge]
  exact ⟨s₂, (hscans₁.append hscans₂).mono (by simp; omega), hs₂⟩

theorem writeItems_eq (m : Nat) (items : List Data) :
    writeItems m items = indentLines m (items.map fun d => '-' :: writeNested m d) := by
  induction items with
  | nil => rfl
  | cons d items ih =>
    rw [writeItems, ih]
    rfl

/-- **The lines of a list are scanned.** -/
theorem scannedLine_items {items : List Data} (hne : items ≠ []) (h : ∀ d ∈ items, IsLeaf d)
    (m : Nat) : ScannedLine false m ((writeItems m items).drop m) (itemTokens items) := by
  rw [writeItems_eq]
  exact scannedLine_indentLines hne fun d hd => scannedLine_item (h d hd) m

/-! ### Values behind colons -/

/-- **A value of one line is scanned.** -/
theorem scannedBeside_leaf (h : IsLeaf d) (m : Nat) :
    ScannedBeside m (writeValue m d) [scalarToken false d] := by
  have hwritten := writeValue_leaf h m
  refine ⟨⟨_, _, hwritten, .inl rfl⟩, isAllowed_of_mem_leaf h m, ?_⟩
  intro c b next rest hc hindent hcolumn hnext hlead
  rw [hwritten] at hc ⊢
  simp only [List.cons_append, List.append_assoc] at hc
  have hs := @Scanner.stands_space b c false false _ hc (by omega) (by simp)
  obtain ⟨s', hscans, hs'⟩ := hs.exists_scalar (writtenAs_scalar h m) hindent (by omega) hnext hlead
  exact ⟨s', hscans.mono (by simp; omega), hs'⟩

/-- **An empty list is scanned.** -/
theorem scannedBeside_empty (m : Nat) :
    ScannedBeside m [' ', '[', ']', '\n'] [.flowSequenceStart, .flowSequenceEnd] := by
  refine ⟨⟨_, _, rfl, .inl rfl⟩, List.all_eq_true.mp (by decide), ?_⟩
  intro c b next rest hc hindent hcolumn hnext hlead
  have hs := @Scanner.stands_space b c false false _ hc (by omega) (by simp)
  obtain ⟨s', hscans, hs'⟩ := hs.exists_empty (by omega)
  exact ⟨s', hscans.mono (by simp), hs'⟩

/-- **Lines below a key are scanned** as its value. -/
theorem ScannedLine.below (h : ScannedLine opens column w ts) {m : Nat} (hcolumn : m ≤ column)
    (hopens : opens = false → column = m)
    (htokens : ∀ {b : Blocks} {next : Nat}, b.indent = m → next ≤ m →
      ((b.openMap column).add ts).close next = (b.add us).close next) :
    ScannedBeside m ('\n' :: (List.replicate column ' ' ++ w)) us := by
  obtain ⟨x, tail, rfl, hx⟩ := h.begins
  refine ⟨⟨_, _, rfl, .inr rfl⟩, ?_, ?_⟩
  · simp only [List.forall_mem_cons (a := '\n'), List.forall_mem_append]
    exact ⟨rfl, fun _ => isAllowed_of_mem_replicate, h.allowed⟩
  · intro c b next rest hc hindent _ hnext hlead
    rw [List.cons_append, List.append_assoc] at hc
    have hs := @Scanner.stands_line b c false _ column hc
    rw [Blocks.close_of_le (by omega)] at hs
    obtain ⟨s', hscans, hs'⟩ := h.scans hs (by omega) (fun hnot => by rw [hopens hnot, hindent])
      (hnext.trans hcolumn) hlead
    rw [htokens hindent hnext] at hs'
    exact ⟨s', hscans.mono (by simp; omega), hs'⟩

/-- **A list is scanned** at the column of its key. -/
theorem scannedBeside_list {items : List Data} (h : ∀ d ∈ items, IsLeaf d) (m : Nat) :
    ScannedBeside m (writeValue m (.list items)) (tokensOf (.list items)) := by
  cases items with
  | nil => exact scannedBeside_empty m
  | cons d items =>
    have hlines := scannedLine_items (List.cons_ne_nil d items) h m
    rw [writeItems_eq] at hlines
    rw [show writeValue m (.list (d :: items)) = '\n' :: writeItems m (d :: items) from rfl,
      writeItems_eq, indentLines_eq (by simp)]
    refine hlines.below (Nat.le_refl m) (fun _ => rfl) fun hindent _ => ?_
    rw [Blocks.openMap_of_le hindent.ge]
    rfl

/-! ### Entries of maps -/

/-- An entry of a map, behind the indentation of its line. -/
def writeEntry (m : Nat) (e : Data × Data) : Text :=
  if isSimpleKey e.1 then writeScalar true m e.1 ++ ':' :: writeValue m e.2
  else
    '?' :: endLine (besideMark (writeScalar false (m + 2) e.1)) ++
      (List.replicate m ' ' ++ ':' :: writeNested m e.2)

theorem writeEntries_eq (m : Nat) (entries : List (Data × Data)) :
    writeEntries m entries = indentLines m (entries.map (writeEntry m)) := by
  induction entries with
  | nil => rfl
  | cons e entries ih =>
    rw [writeEntries, ih, List.map_cons, writeEntry, indentLines, indentLines, List.flatMap_cons]
    split <;> simp

theorem entryTokens_eq (entries : List (Data × Data)) :
    entryTokens entries = entries.flatMap fun e =>
      .key :: scalarToken (isSimpleKey e.1) e.1 :: .value :: tokensOf e.2 := by
  induction entries with
  | nil => rfl
  | cons e entries ih =>
    rw [entryTokens, ih, List.flatMap_cons]
    rfl

/-- **An entry whose key stands on one line is scanned** with its value. -/
theorem scannedLine_simple (hkey : isSimpleKey (.text t) = true) {m : Nat}
    (h : ScannedBeside m w ts) :
    ScannedLine true m (writeText true m t ++ ':' :: w)
      ([.key, scalarToken true (.text t), .value] ++ ts) := by
  obtain ⟨hw, hline, hshort⟩ := writtenAs_key hkey m
  obtain ⟨y, tail, rfl, hy⟩ := h.begins
  refine ⟨?_, ?_, ?_⟩
  · obtain ⟨x, rest, hx, hlead⟩ := hw.isLead
    exact ⟨x, _, by rw [hx]; rfl, hlead⟩
  · exact List.forall_mem_append.mpr ⟨hw.isAllowed, List.forall_mem_cons.mpr ⟨rfl, h.allowed⟩⟩
  · intro s b next rest hs hindent _ hnext hlead
    simp only [List.append_assoc, List.cons_append] at hs
    have hopen : ∀ us, ((b.openMap m).add us).indent = m := fun _ => Blocks.indent_openMap hindent
    obtain ⟨c, hc, hcolumn, hscans⟩ := hs.exists_key hw hline hshort hy hindent
    obtain ⟨s', hscans', hs'⟩ := h.scans hc (hopen _) hcolumn hnext hlead
    rw [Blocks.add_add] at hs'
    exact ⟨s', (hscans.append hscans').mono (by simp), hs'⟩

/-- **An entry whose key does not stand on one line is scanned**: the map that is its value goes on
behind the colon. -/
theorem scannedLine_explicit (t : Text) {m : Nat} (h : ScannedLine true (m + 2) w ts) :
    ScannedLine true m
      ('?' :: endLine (besideMark (writeScalar false (m + 2) (.text t))) ++
        (List.replicate m ' ' ++ ':' :: ' ' :: w))
      ([.key, scalarToken false (.text t), .value] ++
        (.blockMappingStart :: ts ++ [.blockEnd])) := by
  have hkey : IsLeaf (.text t) := trivial
  have hw := writtenAs_scalar hkey m
  rw [endLine_besideMark hw.ne_nil]
  obtain ⟨x, tail, rfl, hx⟩ := h.begins
  refine ⟨⟨_, _, rfl, rfl⟩, ?_, ?_⟩
  · simp only [List.cons_append, List.append_assoc, List.forall_mem_cons (a := '?'),
      List.forall_mem_cons (a := ' '), List.forall_mem_append, List.forall_mem_cons (a := ':')]
    exact ⟨rfl, rfl, hw.isAllowed, fun _ => isAllowed_of_mem_closing,
      fun _ => isAllowed_of_mem_replicate, rfl, rfl, h.allowed⟩
  · intro s b next rest hs hindent _ hnext hlead
    simp only [List.append_assoc, List.cons_append] at hs
    have hopen : ∀ us, ((b.openMap m).add us).indent = m := fun _ => Blocks.indent_openMap hindent
    have hlarger : ∀ us, ((b.openMap m).add us).indent < ((m + 2 : Nat) : Int) := fun us => by
      rw [hopen us]
      omega
    obtain ⟨s₁, hscans₁, hs₁⟩ := hs.exists_mark (t := .key) (by simp) hindent
    obtain ⟨s₂, hscans₂, hs₂⟩ := hs₁.exists_scalar hw (hopen _) (by omega) (Nat.le_refl m)
      (by rintro _ ⟨⟩; rfl)
    rw [Blocks.add_add, Blocks.close_of_le (hopen _).le] at hs₂
    obtain ⟨s₃, hscans₃, hs₃⟩ := hs₂.exists_mark (t := .value) (by simp) (hopen _).le
    rw [Blocks.openMap_of_le (hopen _).ge, Blocks.add_add] at hs₃
    -- the map of the value is indented further, so its block is closed at its end
    obtain ⟨s₄, hscans₄, hs₄⟩ := h.scans hs₃ (hlarger _).le nofun (by omega) hlead
    rw [Blocks.close_openMap (hlarger _) (by omega), Blocks.add_add] at hs₄
    exact ⟨s₄, (hscans₁.append (hscans₂.append (hscans₃.append hscans₄))).mono (by simp; omega),
      hs₄⟩

theorem Laid.ne_nil {entries : List (Data × Data)} (h : Laid (.map entries)) : entries ≠ [] := by
  cases h with
  | leaf h => cases h
  | map hne => exact hne

/-- A value is scanned behind its colon, if it is so where it is a map. -/
theorem Laid.scannedBeside (h : Laid d) (hmap : ∀ {entries}, d = .map entries → ∀ m,
      ScannedLine true m ((writeEntries m entries).drop m) (entryTokens entries)) (m : Nat) :
    ScannedBeside m (writeValue m d) (tokensOf d) := by
  cases h with
  | leaf h =>
    rw [h.tokensOf]
    exact scannedBeside_leaf h m
  | list h => exact scannedBeside_list h m
  | @map entries hne =>
    obtain ⟨e, entries, rfl⟩ := List.exists_cons_of_ne_nil hne
    have hlines := hmap rfl (m + 2)
    rw [writeEntries_eq] at hlines
    have hwritten : writeValue m (.map (e :: entries)) =
        '\n' :: writeEntries (m + 2) (e :: entries) := rfl
    rw [hwritten, writeEntries_eq, indentLines_eq (by simp)]
    exact hlines.below (by omega) nofun fun hindent hnext =>
      Blocks.close_openMap (by omega) (by omega)

/-- **The lines of a map are scanned as its entries.** -/
theorem Laid.scannedLine (h : Laid d) : ∀ {entries}, d = .map entries → ∀ m,
    ScannedLine true m ((writeEntries m entries).drop m) (entryTokens entries) := by
  induction h with
  | leaf h =>
    rintro entries rfl
    cases h
  | list h => nofun
  | @map entries hne hdistinct hkeys hlong hvalues ih =>
    -- an entry is scanned at the column of its map, whatever stands behind it
    rintro _ ⟨⟩ m
    rw [writeEntries_eq, entryTokens_eq]
    refine scannedLine_indentLines hne fun e he => ?_
    obtain ⟨t, ht⟩ := hkeys e he
    obtain ⟨k, v⟩ := e
    obtain rfl : k = .text t := ht
    unfold writeEntry
    split
    · rename_i hsimple
      rw [hsimple]
      exact scannedLine_simple hsimple ((hvalues _ he).scannedBeside (ih _ he) m)
    · rename_i hnot
      obtain ⟨es, rfl⟩ : ∃ es, v = .map es := hlong _ he (by simpa using hnot)
      obtain ⟨e, es, rfl⟩ := List.exists_cons_of_ne_nil (hvalues _ he).ne_nil
      rw [Bool.eq_false_iff.mpr hnot]
      exact scannedLine_explicit t (ih _ he rfl (m + 2))

/-- **What is written of a map is scanned as its tokens.** -/
theorem tokens?_write {entries : List (Data × Data)} (h : Laid (.map entries)) :
    tokens? (write (.map entries)) = some (tokensOf (.map entries)) := by
  have hline := h.scannedLine rfl 0
  have hwritten : write (.map entries) = writeEntries 0 entries := by
    obtain ⟨e, entries, rfl⟩ := List.exists_cons_of_ne_nil h.ne_nil
    rfl
  rw [List.drop_zero, ← hwritten] at hline
  generalize write (.map entries) = t at hline
  have hstart : (Scanner.start t).Stands 0 true (t ++ (List.replicate 0 ' ' ++ [])) .none := by
    simpa using Scanner.stands_start t
  obtain ⟨s, hscans, hs⟩ := hline.scans hstart (by decide) nofun (Nat.le_refl 0) (by simp)
  rw [tokens?_of_scans hline.allowed hscans hs.exists_finish]
  have hinner : ((Blocks.none.openMap 0).add (entryTokens entries)).close ((0 : Nat) : Int) =
      (Blocks.none.openMap 0).add (entryTokens entries) := Blocks.close_of_le (Int.le_refl 0)
  have houter : ((Blocks.none.openMap 0).add (entryTokens entries)).close (-1) =
      Blocks.none.add (tokensOf (.map entries)) :=
    (Blocks.close_openMap (by decide) (by decide)).trans (Blocks.close_of_le (Int.le_refl (-1)))
  rw [hinner, houter]
  simp [Blocks.add, Blocks.none]

end NotePress.Yaml
