import NotePress.Proofs.JsonLexemes
import NotePress.Proofs.JsonTokens

/-!
# JSON read as JSON

What is read of a value that was written as JSON (`readBack?`) is the value, but for numbers, of
which JSON holds the shortest decimal and null if they are not finite, and for tags, which JSON does
not hold. The reader drops the blanks that the writer puts in front of each item, and every value,
item and entry takes one step of the reader and at least one character, so its fuel is enough
(`readValue?_writePretty`). Hence `read?_eq_readBack?`: of a value with texts as keys, no key twice
and integers of at most 64 bits just that is read, whatever its texts are and however deep it is
nested.
-/

namespace NotePress.Json

variable {rest : Text}

/-! ### Values -/

mutual
/-- **Values that JSON can hold**: the keys of maps are texts, none of them twice, and integers fit
64 bits. -/
def Exchangeable : Data → Prop
  | .int k => -(2 ^ 63) ≤ k ∧ k < 2 ^ 64
  | .list items => ExchangeableItems items
  | .map entries => Data.distinctKeys entries = true ∧ ExchangeableEntries entries
  | .tagged _ inner => Exchangeable inner
  | _ => True

def ExchangeableItems : List Data → Prop
  | [] => True
  | d :: rest => Exchangeable d ∧ ExchangeableItems rest

def ExchangeableEntries : List (Data × Data) → Prop
  | [] => True
  | (k, v) :: rest => (∃ t, k = .text t) ∧ Exchangeable v ∧ ExchangeableEntries rest
end

/-- What is read of a number: its shortest decimal, if that is not too great for 64 bits, and null
for one that is not finite. -/
def readBackNumber? (f : BinaryFormat) : Floating → Option Data
  | .finite negative m e =>
    match Floating.reread f negative m e with
    | .infinite _ => none
    | x => some (.float double x)
  | _ => some .null

mutual
/-- **What is read of the JSON of a value**, by a reader of JSON. -/
def readBack? : Data → Option Data
  | .float f x => readBackNumber? f x
  | .list items => (readBackItems? items).map .list
  | .map entries => (readBackEntries? entries).map .map
  | .tagged _ inner => readBack? inner
  | d => some d

def readBackItems? : List Data → Option (List Data)
  | [] => some []
  | d :: rest => (readBack? d).bind fun d => (readBackItems? rest).map (d :: ·)

def readBackEntries? : List (Data × Data) → Option (List (Data × Data))
  | [] => some []
  | (k, v) :: rest => (readBack? v).bind fun v => (readBackEntries? rest).map ((k, v) :: ·)
end

/-- How a number begins. -/
def BeginsNumber (c : Char) : Prop := c.isDigit = true ∨ c = '-'

theorem exists_write_finite (f : BinaryFormat) (negative : Bool) (m : Nat) (e : Int) :
    ∃ c t, NumberLayout.json.write f (.finite negative m e) = c :: t ∧ BeginsNumber c := by
  obtain ⟨n, hn, -, hwritten, -⟩ :=
    Numeral.exists_numeral_write Numeral.isDecimal_json f negative m e
  obtain ⟨c, t, htext, hc⟩ := hn.exists_begin
  rw [hwritten, htext]
  cases negative with
  | true => exact ⟨'-', c :: t, rfl, .inr rfl⟩
  | false => exact ⟨c, t, rfl, .inl hc⟩

theorem exists_ofInt (k : Int) : ∃ c t, Text.ofInt k = c :: t ∧ BeginsNumber c := by
  unfold Text.ofInt
  split
  · exact ⟨'-', _, rfl, .inr rfl⟩
  · obtain ⟨c, t, hdigits, hc, -⟩ := Text.exists_ofNat k.natAbs
    exact ⟨c, t, hdigits, .inl hc⟩

theorem BeginsNumber.ne {c x : Char} (hc : BeginsNumber c) (hx : x.isDigit = false)
    (hx' : x ≠ '-') : c ≠ x := by
  rintro rfl
  exact hc.elim (by rw [hx]; exact nofun) hx'

theorem BeginsNumber.isGap {c : Char} (hc : BeginsNumber c) : isGap c = false := by
  have hblank : c ≠ ' ' := hc.ne rfl (by decide)
  have hfeed : c ≠ '\n' := hc.ne rfl (by decide)
  have hreturn : c ≠ '\r' := hc.ne rfl (by decide)
  have htab : c ≠ '\t' := hc.ne rfl (by decide)
  simp [Json.isGap, hblank, hfeed, hreturn, htab]

theorem readValue?_number {c : Char} (hc : BeginsNumber c) (fuel : Nat) (t : Text) :
    readValue? (fuel + 1) (c :: t) =
      (readNumberParts? (c :: t)).bind fun p => p.1.value?.map fun d => (d, p.2) := by
  unfold readValue?
  split
  all_goals
    first
      | rfl
      | (rename_i heq
         exact absurd (List.cons.inj heq).1 (hc.ne rfl (by decide)))

/-- **A number is read.** -/
theorem readValue?_write (f : BinaryFormat) (x : Floating) (fuel : Nat) (hrest : EndsNumber rest) :
    readValue? (fuel + 1) (NumberLayout.json.write f x ++ rest) =
      (readBackNumber? f x).map fun d => (d, rest) := by
  cases x with
  | nan => rfl
  | infinite negative => cases negative <;> rfl
  | finite negative m e =>
    obtain ⟨n, hn, hstandard, hwritten, hvalue⟩ :=
      Numeral.exists_numeral_write Numeral.isDecimal_json f negative m e
    have hparts := readNumberParts?_append hstandard hn.whole hn.fraction negative hrest
    rw [← hwritten] at hparts
    obtain ⟨c, t, hbegins, hc⟩ := exists_write_finite f negative m e
    rw [hbegins, List.cons_append] at hparts ⊢
    rw [readValue?_number hc, hparts, Option.bind_some, value?_of_sound hn, hvalue]
    rfl

theorem readValue?_ofInt {k : Int} (hlow : -(2 ^ 63) ≤ k) (hhigh : k < 2 ^ 64) (fuel : Nat)
    (hrest : EndsNumber rest) :
    readValue? (fuel + 1) (Text.ofInt k ++ rest) = some (.int k, rest) := by
  obtain ⟨c, t, hbegins, hc⟩ := exists_ofInt k
  have hread := readNumberParts?_ofInt hlow hhigh hrest
  rw [hbegins, List.cons_append] at hread ⊢
  rw [readValue?_number hc, hread]

/-- **A value begins** with a character that is no blank and closes no list. -/
theorem exists_writePretty : ∀ (indent : Nat) (d : Data),
    ∃ c t, writePretty indent d = c :: t ∧ isGap c = false ∧ c ≠ ']'
  | _, .null => ⟨'n', _, rfl, rfl, by decide⟩
  | _, .bool true => ⟨'t', _, rfl, rfl, by decide⟩
  | _, .bool false => ⟨'f', _, rfl, rfl, by decide⟩
  | _, .text _ => ⟨'"', _, rfl, rfl, by decide⟩
  | _, .list [] | _, .list (_ :: _) => ⟨'[', _, rfl, rfl, by decide⟩
  | _, .map [] | _, .map (_ :: _) => ⟨'\x7b', _, rfl, rfl, by decide⟩
  | indent, .tagged _ inner => exists_writePretty indent inner
  | _, .int k => by
    obtain ⟨c, t, hbegins, hc⟩ := exists_ofInt k
    exact ⟨c, t, hbegins, hc.isGap, hc.ne rfl (by decide)⟩
  | _, .float f (.finite negative m e) => by
    obtain ⟨c, t, hbegins, hc⟩ := exists_write_finite f negative m e
    exact ⟨c, t, hbegins, hc.isGap, hc.ne rfl (by decide)⟩
  | _, .float _ .nan => ⟨'n', _, rfl, rfl, by decide⟩
  | _, .float _ (.infinite true) | _, .float _ (.infinite false) => ⟨'n', _, rfl, rfl, by decide⟩

theorem dropGap_breakTo (indent : Nat) (t : Text) : dropGap (breakTo indent ++ t) = dropGap t := by
  refine List.dropWhile_append_of_pos fun c hc => ?_
  rcases isGap_breakTo indent c hc with rfl | rfl <;> rfl

/-- No blank stands in front of a value. -/
theorem dropGap_writePretty (indent : Nat) (d : Data) (rest : Text) :
    dropGap (writePretty indent d ++ rest) = writePretty indent d ++ rest := by
  obtain ⟨c, t, hbegins, hc, -⟩ := exists_writePretty indent d
  rw [hbegins, List.cons_append]
  exact List.dropWhile_cons_of_neg (by rw [hc]; exact Bool.false_ne_true)

theorem dropGap_colon (t : Text) : dropGap (':' :: t) = ':' :: t := rfl

/-! ### Collections -/

/-- What follows on a value ends a number. -/
theorem endsNumber_breakTo (indent : Nat) (t : Text) : EndsNumber (breakTo indent ++ t) := by
  rintro _ ⟨⟩
  decide

theorem endsNumber_comma (t : Text) : EndsNumber (',' :: t) := by
  rintro _ ⟨⟩
  decide

/-- The items behind the first one, with a comma in front of them. -/
def laterItems (indent : Nat) : List Data → Text
  | [] => []
  | d :: rest => ',' :: prettyItems indent (d :: rest)

theorem prettyItems_cons (indent : Nat) (d : Data) (items : List Data) :
    prettyItems indent (d :: items) =
      breakTo indent ++ (writePretty indent d ++ laterItems indent items) := by
  cases items <;> simp [prettyItems, laterItems]

/-- The first item stands behind the blanks. -/
theorem dropGap_prettyItems (indent : Nat) (d : Data) (items : List Data) (rest : Text) :
    dropGap (prettyItems indent (d :: items) ++ rest) =
      writePretty indent d ++ (laterItems indent items ++ rest) := by
  rw [prettyItems_cons, List.append_assoc, dropGap_breakTo, List.append_assoc, dropGap_writePretty]

/-- The entries behind the first one, with a comma in front of them. -/
def laterEntries (indent : Nat) : List (Data × Data) → Text
  | [] => []
  | e :: rest => ',' :: prettyEntries indent (e :: rest)

theorem prettyEntries_cons (indent : Nat) (k : Text) (v : Data) (entries : List (Data × Data)) :
    prettyEntries indent ((.text k, v) :: entries) =
      breakTo indent ++ (writeText k ++ ':' :: ' ' :: (writePretty indent v ++
        laterEntries indent entries)) := by
  cases entries <;> simp [prettyEntries, laterEntries, write_text]

/-- The key of the first entry stands behind the blanks. -/
theorem dropGap_prettyEntries (indent : Nat) (k : Text) (v : Data) (entries : List (Data × Data))
    (rest : Text) :
    dropGap (prettyEntries indent ((.text k, v) :: entries) ++ rest) =
      '"' :: (k.flatMap escapeChar ++ '"' :: ':' :: ' ' :: (writePretty indent v ++
        (laterEntries indent entries ++ rest))) := by
  have hwritten : prettyEntries indent ((.text k, v) :: entries) ++ rest =
      breakTo indent ++ '"' :: (k.flatMap escapeChar ++ '"' :: ':' :: ' ' ::
        (writePretty indent v ++ (laterEntries indent entries ++ rest))) := by
    simp [prettyEntries_cons, writeText_append]
  rw [hwritten, dropGap_breakTo]
  rfl

/-- **Keys that are new**: none of them is among those that were read. -/
def NewKeys (done entries : List (Data × Data)) : Prop :=
  ∀ e ∈ done, ∀ e' ∈ entries, Data.sameKey e.1 e'.1 = false

/-- The later keys are still new when the first one has been read, whatever its value. -/
theorem NewKeys.concat {done entries : List (Data × Data)} {k v : Data}
    (h : NewKeys done ((k, v) :: entries)) (hkeys : Data.distinctKeys ((k, v) :: entries) = true)
    (v' : Data) : NewKeys (done ++ [(k, v')]) entries := by
  rw [Data.distinctKeys, Bool.and_eq_true, Bool.not_eq_true', List.any_eq_false] at hkeys
  intro e he e' he'
  rcases List.mem_append.mp he with he | he
  · exact h e he e' (List.mem_cons_of_mem _ he')
  · rw [List.mem_singleton.mp he]
    exact Bool.eq_false_iff.mpr (hkeys.1 e' he')

/-- A key that is new is put behind the others. -/
theorem insertKey_of_new {done : List (Data × Data)} {k : Text}
    (hnew : ∀ e ∈ done, Data.sameKey e.1 (.text k) = false) (v : Data) :
    insertKey done k v = done ++ [(.text k, v)] := by
  have hspells : (done.any fun e => e.1.spells k) = false := by
    rw [List.any_eq_false]
    intro e he
    have hne := hnew e he
    obtain ⟨key, _⟩ := e
    cases key <;> simp_all [Data.spells, Data.sameKey]
  rw [insertKey, hspells]
  rfl

mutual
/-- **A value is read back**, up to what follows it. -/
theorem readValue?_writePretty : ∀ {d : Data}, Exchangeable d → ∀ {fuel indent : Nat} {rest : Text},
    (writePretty indent d).length ≤ fuel → EndsNumber rest →
    readValue? fuel (writePretty indent d ++ rest) = (readBack? d).map fun v => (v, rest)
  | d, hd, 0, indent, rest, hfuel, hrest => by
    obtain ⟨c, t, hbegins, -⟩ := exists_writePretty indent d
    rw [hbegins] at hfuel
    exact absurd hfuel (Nat.not_succ_le_zero _)
  | .null, _, fuel + 1, _, _, _, _ => rfl
  | .bool true, _, fuel + 1, _, _, _, _ => rfl
  | .bool false, _, fuel + 1, _, _, _, _ => rfl
  | .int _, hd, fuel + 1, _, _, _, hrest => readValue?_ofInt hd.1 hd.2 fuel hrest
  | .float f x, _, fuel + 1, _, _, _, hrest => readValue?_write f x fuel hrest
  | .tagged _ inner, hd, fuel + 1, _, _, hfuel, hrest =>
    @readValue?_writePretty inner hd (fuel + 1) _ _ hfuel hrest
  | .text t, _, fuel + 1, indent, rest, _, _ => by
    rw [show writePretty indent (.text t) = writeText t from rfl, writeText_append, readValue?,
      readStringRest?_writeText]
    rfl
  | .list [], _, fuel + 1, _, _, _, _ => rfl
  | .list (d :: items), hd, fuel + 1, indent, rest, hfuel, _ => by
    have hsplit : writePretty indent (.list (d :: items)) ++ rest =
        '[' :: (prettyItems (indent + 2) (d :: items) ++ (breakTo indent ++ ']' :: rest)) := by
      simp [writePretty]
    have hlength : (prettyItems (indent + 2) (d :: items)).length ≤ fuel := by
      simp only [writePretty, List.length_append, List.length_cons] at hfuel
      omega
    have hitems := @readItems?_pretty d items hd fuel (indent + 2) indent rest [] hlength
    obtain ⟨c, t, hbegins, -, hc⟩ := exists_writePretty (indent + 2) d
    rw [dropGap_prettyItems, hbegins, List.cons_append] at hitems
    rw [hsplit, readValue?, dropGap_prettyItems, hbegins, List.cons_append]
    split
    · rename_i heq
      exact absurd (List.cons.inj heq).1 hc
    · rw [hitems, readBack?]
      cases readBackItems? (d :: items) <;> rfl
  | .map [], _, fuel + 1, _, _, _, _ => rfl
  | .map ((k, v) :: entries), hd, fuel + 1, indent, rest, hfuel, _ => by
    obtain ⟨t, rfl⟩ := hd.2.1
    have hsplit : writePretty indent (.map ((.text t, v) :: entries)) ++ rest = '\x7b' ::
        (prettyEntries (indent + 2) ((.text t, v) :: entries) ++
          (breakTo indent ++ '\x7d' :: rest)) := by
      simp [writePretty]
    have hlength : (prettyEntries (indent + 2) ((.text t, v) :: entries)).length ≤ fuel := by
      simp only [writePretty, List.length_append, List.length_cons] at hfuel
      omega
    have hentries := @readEntries?_pretty t v entries hd.1 hd.2 fuel (indent + 2) indent rest []
      nofun hlength
    rw [dropGap_prettyEntries] at hentries
    rw [hsplit, readValue?, dropGap_prettyEntries]
    show (readEntries? fuel [] _).map _ = _
    rw [hentries, readBack?]
    cases readBackEntries? ((.text t, v) :: entries) <;> rfl
-- a tag takes no step of the reader, so there the value itself has to get smaller
termination_by d _ fuel => (fuel, sizeOf d)

theorem readItems?_pretty : ∀ {d : Data} {items : List Data}, ExchangeableItems (d :: items) →
    ∀ {fuel indent outer : Nat} {rest : Text} (done : List Data),
    (prettyItems indent (d :: items)).length ≤ fuel →
    readItems? fuel done (dropGap (prettyItems indent (d :: items) ++
      (breakTo outer ++ ']' :: rest))) =
        (readBackItems? (d :: items)).map fun ds => (done.reverse ++ ds, rest)
  | d, items, hd, 0, indent, outer, rest, done, hfuel => by
    rw [prettyItems_cons] at hfuel
    exact absurd hfuel (Nat.not_succ_le_zero _)
  | d, items, hd, fuel + 1, indent, outer, rest, done, hfuel => by
    rw [prettyItems_cons, List.length_append, List.length_append,
      show (breakTo indent).length = indent + 1 by simp [breakTo]] at hfuel
    have hends : EndsNumber (laterItems indent items ++ (breakTo outer ++ ']' :: rest)) := by
      cases items with
      | nil => exact endsNumber_breakTo outer _
      | cons e items => exact endsNumber_comma _
    have hvalue := @readValue?_writePretty d hd.1 fuel indent _ (by omega) hends
    rw [dropGap_prettyItems, readItems?, hvalue, readBackItems?]
    cases readBack? d with
    | none => rfl
    | some v =>
      simp only [Option.map_some, Option.bind_some]
      cases items with
      | nil =>
        rw [laterItems, List.nil_append, dropGap_breakTo]
        simp [dropGap, isGap, readBackItems?]
      | cons e items =>
        have hmore := @readItems?_pretty e items hd.2 fuel indent outer rest (v :: done)
          (by simp only [laterItems, List.length_cons] at hfuel; omega)
        rw [laterItems, List.cons_append]
        show readItems? fuel (v :: done) (dropGap _) = _
        rw [hmore]
        cases readBackItems? (e :: items) <;> simp
termination_by _ _ _ fuel => (fuel, 0)

theorem readEntries?_pretty : ∀ {t : Text} {v : Data} {entries : List (Data × Data)},
    Data.distinctKeys ((.text t, v) :: entries) = true →
    ExchangeableEntries ((.text t, v) :: entries) →
    ∀ {fuel indent outer : Nat} {rest : Text} {done : List (Data × Data)},
    NewKeys done ((.text t, v) :: entries) →
    (prettyEntries indent ((.text t, v) :: entries)).length ≤ fuel →
    readEntries? fuel done (dropGap (prettyEntries indent ((.text t, v) :: entries) ++
      (breakTo outer ++ '\x7d' :: rest))) =
        (readBackEntries? ((.text t, v) :: entries)).map fun es => (done ++ es, rest)
  | t, v, entries, hkeys, hd, 0, indent, outer, rest, done, hdone, hfuel => by
    rw [prettyEntries_cons] at hfuel
    exact absurd hfuel (Nat.not_succ_le_zero _)
  | t, v, entries, hkeys, hd, fuel + 1, indent, outer, rest, done, hdone, hfuel => by
    rw [prettyEntries_cons] at hfuel
    simp only [List.length_append, List.length_cons] at hfuel
    have hends : EndsNumber (laterEntries indent entries ++ (breakTo outer ++ '\x7d' :: rest)) := by
      cases entries with
      | nil => exact endsNumber_breakTo outer _
      | cons e entries => exact endsNumber_comma _
    have hvalue := @readValue?_writePretty v hd.2.1 fuel indent _ (by omega) hends
    have hspace : dropGap (' ' :: (writePretty indent v ++ (laterEntries indent entries ++
        (breakTo outer ++ '\x7d' :: rest)))) = writePretty indent v ++
          (laterEntries indent entries ++ (breakTo outer ++ '\x7d' :: rest)) :=
      dropGap_writePretty indent v _
    have hinsert := insertKey_of_new fun e he => hdone e he _ (List.mem_cons_self ..)
    rw [dropGap_prettyEntries, readEntries?, readStringRest?_writeText, readBackEntries?]
    simp only [dropGap_colon, hspace, hvalue]
    cases readBack? v with
    | none => rfl
    | some v' =>
      simp only [Option.map_some, Option.bind_some, hinsert]
      cases entries with
      | nil =>
        rw [laterEntries, List.nil_append, dropGap_breakTo]
        simp [dropGap, isGap, readBackEntries?]
      | cons e entries =>
        obtain ⟨k, w⟩ := e
        obtain ⟨u, rfl⟩ := hd.2.2.1
        have hlater : Data.distinctKeys ((.text u, w) :: entries) = true := by
          rw [Data.distinctKeys, Bool.and_eq_true] at hkeys
          exact hkeys.2
        have hmore := @readEntries?_pretty u w entries hlater hd.2.2 fuel indent outer rest _
          (hdone.concat hkeys v') (by simp only [laterEntries, List.length_cons] at hfuel; omega)
        rw [laterEntries, List.cons_append]
        show readEntries? fuel _ (dropGap _) = _
        rw [hmore]
        cases readBackEntries? ((.text u, w) :: entries) <;> simp
termination_by _ _ _ _ _ fuel => (fuel, 0)
end

/-- **What is written as JSON is read back.** -/
theorem read?_eq_readBack? {d : Data} (hd : Exchangeable d) (indent : Nat) :
    read? (writePretty indent d) = readBack? d := by
  have hread := @readValue?_writePretty d hd ((writePretty indent d).length + 1) indent []
    (Nat.le_succ _) nofun
  have hgap := dropGap_writePretty indent d []
  rw [List.append_nil] at hread hgap
  unfold read?
  rw [hgap, hread]
  cases readBack? d <;> rfl

end NotePress.Json
