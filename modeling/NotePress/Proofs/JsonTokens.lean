import NotePress.Proofs.Decimals
import NotePress.Proofs.FlowTokens

/-!
# The tokens of JSON

`Json.ScannedAs` says of a text and some tokens that the scanner finds these tokens wherever the
text stands in a collection. By recursion on the value, the JSON of each `Readable` value is scanned
as its tokens (`scannedAs_value`), at any indentation. Its characters may all stand in a YAML text,
so `tokens?_writePretty`: scanning a whole map to its end gives the tokens of the map.
-/

namespace NotePress.Json

open Yaml (Token Legible Bare IsGap Follows Scanner)
open Yaml.Scanner (Scans InFlow)

/-! ### Values -/

/-- A key that is a text, and short enough to be told from a value. -/
def IsKey (k : Data) : Prop :=
  ∃ t, k = .text t ∧ Legible t ∧ Text.byteLength (writeText t) ≤ 1024

mutual
/-- **Values whose JSON can be read as YAML**: their texts are legible, and the keys of their maps
are short texts, none of them twice. -/
def Readable : Data → Prop
  | .text t => Legible t
  | .list items => ReadableItems items
  | .map entries => Data.distinctKeys entries = true ∧ ReadableEntries entries
  | .tagged _ inner => Readable inner
  | _ => True

def ReadableItems : List Data → Prop
  | [] => True
  | d :: rest => Readable d ∧ ReadableItems rest

def ReadableEntries : List (Data × Data) → Prop
  | [] => True
  | (k, v) :: rest => IsKey k ∧ Readable v ∧ ReadableEntries rest
end

instance decidableIsKey : (k : Data) → Decidable (IsKey k)
  | .text t => decidable_of_iff (Legible t ∧ Text.byteLength (writeText t) ≤ 1024)
      ⟨fun h => ⟨t, rfl, h⟩, by rintro ⟨_, ⟨⟩, h⟩; exact h⟩
  | .null | .bool _ | .int _ | .float _ _ | .list _ | .map _ | .tagged _ _ =>
    isFalse (by rintro ⟨_, ⟨⟩, _⟩)

mutual
instance decidableReadable : (d : Data) → Decidable (Readable d)
  | .text t => inferInstanceAs (Decidable (Legible t))
  | .list items => decidableReadableItems items
  | .map entries => @instDecidableAnd _ _ _ (decidableReadableEntries entries)
  | .tagged _ inner => decidableReadable inner
  | .null | .bool _ | .int _ | .float _ _ => isTrue trivial

instance decidableReadableItems : (items : List Data) → Decidable (ReadableItems items)
  | [] => isTrue trivial
  | d :: rest => @instDecidableAnd _ _ (decidableReadable d) (decidableReadableItems rest)

instance decidableReadableEntries : (entries : List (Data × Data)) →
    Decidable (ReadableEntries entries)
  | [] => isTrue trivial
  | (_, v) :: rest => @instDecidableAnd _ _ _
      (@instDecidableAnd _ _ (decidableReadable v) (decidableReadableEntries rest))
end

mutual
/-- The tokens of a value. -/
def tokensOf : Data → List Token
  | .text t => [.scalar t false]
  | .list items => .flowSequenceStart :: itemTokens items ++ [.flowSequenceEnd]
  | .map entries => .flowMappingStart :: entryTokens entries ++ [.flowMappingEnd]
  | .tagged _ inner => tokensOf inner
  | d => [.scalar (writeScalar d) true]

def itemTokens : List Data → List Token
  | [] => []
  | [d] => tokensOf d
  | d :: rest => tokensOf d ++ .flowEntry :: itemTokens rest

def entryTokens : List (Data × Data) → List Token
  | [] => []
  | [(k, v)] => .key :: tokensOf k ++ .value :: tokensOf v
  | (k, v) :: rest => .key :: tokensOf k ++ .value :: tokensOf v ++ .flowEntry :: entryTokens rest
end

/-! ### Scanning -/

/-- **A text is scanned as tokens** wherever it stands inside of flow collections, up to what
follows on a value; `keys` asks that a key may begin in front of it. -/
def ScannedAs (keys : Bool) (text : Text) (produced : List Token) : Prop :=
  ∀ ⦃s : Scanner⦄ ⦃depth : Nat⦄ ⦃gap more : Text⦄ ⦃x : Char⦄ ⦃tokens : List Token⦄,
    IsGap gap → Follows x → s.InFlow (depth + 1) keys (text ++ (gap ++ x :: more)) tokens →
    ∃ s', Scans text s s' ∧ s'.InFlow (depth + 1) false (x :: more) (produced.reverse ++ tokens)

variable {keys : Bool} {t u : Text} {produced later : List Token}

theorem ScannedAs.ofKeys (h : ScannedAs false t produced) : ScannedAs true t produced :=
  fun _ _ _ _ _ _ hgap hx hs => h hgap hx hs.anyKeys

theorem scannedAs_nil : ScannedAs keys [] [] := by
  intro s depth gap more x tokens hgap hx hs
  rw [List.nil_append] at hs
  exact ⟨s, ⟨0, Nat.le_refl _, fun fuel => by rw [Nat.zero_add]⟩, (hs.skipGap hgap).anyKeys⟩

/-- A gap in front of a text gives no token. -/
theorem ScannedAs.behindGap {before : Text} (hbefore : IsGap before)
    (h : ScannedAs keys t produced) : ScannedAs keys (before ++ t) produced := by
  intro s depth gap more x tokens hgap hx hs
  rw [List.append_assoc] at hs
  obtain ⟨s', hscans, hs'⟩ := h hgap hx (hs.skipGap hbefore)
  exact ⟨s', hscans.mono (by rw [List.length_append]; omega), hs'⟩

/-- A comma stands between two parts. -/
theorem ScannedAs.comma (h : ScannedAs keys t produced) (h' : ScannedAs true u later) :
    ScannedAs keys (t ++ ',' :: u) (produced ++ .flowEntry :: later) := by
  intro s depth gap more x tokens hgap hx hs
  rw [List.append_assoc] at hs
  obtain ⟨s₁, hscans₁, h₁⟩ := @h s depth [] (u ++ (gap ++ x :: more)) ',' tokens
    Yaml.isGap_nil (.inl rfl) hs
  obtain ⟨s₂, hscans₂, h₂⟩ := h₁.comma
  obtain ⟨s₃, hscans₃, h₃⟩ := h' hgap hx h₂
  refine ⟨s₃, ?_, by simpa using h₃⟩
  simpa using (hscans₁.append hscans₂).append hscans₃

theorem write_text (t : Text) : write (.text t) = writeText t := rfl

/-- A key, its colon and a value are an entry. -/
theorem ScannedAs.entry {k : Data} (hk : IsKey k) (h : ScannedAs false t produced) :
    ScannedAs true (write k ++ ':' :: ' ' :: t) (.key :: tokensOf k ++ .value :: produced) := by
  obtain ⟨name, rfl, hname, hshort⟩ := hk
  intro s depth gap more x tokens hgap hx hs
  rw [write_text, List.append_assoc] at hs
  obtain ⟨s₁, hscans₁, h₁⟩ := hs.key hname hshort
  have hspaced : ScannedAs false ([' '] ++ t) produced := h.behindGap (by simp [IsGap])
  obtain ⟨s₂, hscans₂, h₂⟩ := hspaced hgap hx h₁
  refine ⟨s₂, ?_, by simpa [tokensOf] using h₂⟩
  rw [write_text]
  simpa using hscans₁.append hscans₂

theorem scannedAs_bare {w : Text} (hw : Bare w) : ScannedAs false w [.scalar w true] :=
  fun _ _ _ _ _ _ hgap hx hs => hs.bare hw hgap hx

theorem isGap_breakTo (indent : Nat) : IsGap (breakTo indent) :=
  List.forall_mem_cons.mpr ⟨.inr rfl, fun _ hc => .inl (List.eq_of_mem_replicate hc)⟩

theorem bare_bool (b : Bool) : Bare (writeScalar (.bool b)) := by
  cases b
  · exact ⟨List.all_eq_true.mp (by decide), 'f', _, rfl, .inl rfl⟩
  · exact ⟨List.all_eq_true.mp (by decide), 't', _, rfl, .inl rfl⟩

/-- **A collection is scanned** at any depth and whatever follows it, if what it holds is. -/
theorem ScannedAs.encloses {x y : Char} {opening closing : Token} {inner gap more : Text}
    {s : Scanner} {depth : Nat} {tokens : List Token} (h : ScannedAs true inner produced)
    (hx : (x, opening) ∈ [('[', Token.flowSequenceStart), ('\x7b', .flowMappingStart)])
    (hy : (y, closing) ∈ [(']', Token.flowSequenceEnd), ('\x7d', .flowMappingEnd)])
    (hgap : IsGap gap) (hs : s.InFlow depth keys (x :: inner ++ gap ++ [y] ++ more) tokens) :
    ∃ s', Scans (x :: inner ++ gap ++ [y]) s s' ∧
      s'.InFlow depth false more ((opening :: produced ++ [closing]).reverse ++ tokens) := by
  have hfollows : Follows y := by
    simp only [List.mem_cons, Prod.mk.injEq, List.not_mem_nil, or_false] at hy
    exact .inr (hy.imp And.left And.left)
  exact hs.encloses hx hy fun s₁ h₁ => h hgap hfollows h₁

theorem scans_map {entries : List (Data × Data)}
    (h : ∀ indent, ScannedAs true (prettyEntries indent entries) (entryTokens entries))
    {s : Scanner} {depth indent : Nat} {more : Text} {tokens : List Token}
    (hs : s.InFlow depth keys (writePretty indent (.map entries) ++ more) tokens) :
    ∃ s', Scans (writePretty indent (.map entries)) s s' ∧
      s'.InFlow depth false more ((tokensOf (.map entries)).reverse ++ tokens) := by
  cases entries with
  | nil => exact scannedAs_nil.encloses (by simp) (by simp) Yaml.isGap_nil hs
  | cons e rest => exact (h (indent + 2)).encloses (by simp) (by simp) (isGap_breakTo indent) hs

theorem scans_list {items : List Data}
    (h : ∀ indent, ScannedAs true (prettyItems indent items) (itemTokens items))
    {s : Scanner} {depth indent : Nat} {more : Text} {tokens : List Token}
    (hs : s.InFlow depth keys (writePretty indent (.list items) ++ more) tokens) :
    ∃ s', Scans (writePretty indent (.list items)) s s' ∧
      s'.InFlow depth false more ((tokensOf (.list items)).reverse ++ tokens) := by
  cases items with
  | nil => exact scannedAs_nil.encloses (by simp) (by simp) Yaml.isGap_nil hs
  | cons d rest => exact (h (indent + 2)).encloses (by simp) (by simp) (isGap_breakTo indent) hs

mutual
/-- **A value is scanned as its tokens.** -/
theorem scannedAs_value : ∀ {d : Data}, Readable d → ∀ indent,
    ScannedAs false (writePretty indent d) (tokensOf d)
  | .text _, hd, _ => fun _ _ _ _ _ _ hgap _ hs =>
    let ⟨s', hscans, hs'⟩ := hs.quoted hd
    ⟨s', hscans, hs'.skipGap hgap⟩
  | .list _, hd, _ => fun _ _ _ _ _ _ hgap _ hs =>
    let ⟨s', hscans, hs'⟩ := scans_list (fun indent => scannedAs_items hd indent) hs
    ⟨s', hscans, hs'.skipGap hgap⟩
  | .map _, hd, _ => fun _ _ _ _ _ _ hgap _ hs =>
    let ⟨s', hscans, hs'⟩ := scans_map (fun indent => scannedAs_entries hd.2 indent) hs
    ⟨s', hscans, hs'.skipGap hgap⟩
  | .tagged _ inner, hd, indent => @scannedAs_value inner hd indent
  | .null, _, _ => scannedAs_bare bare_null
  | .bool b, _, _ => scannedAs_bare (bare_bool b)
  | .int n, _, _ => scannedAs_bare (bare_ofInt n)
  | .float f x, _, _ => scannedAs_bare (bare_write f x)

theorem scannedAs_items : ∀ {items : List Data}, ReadableItems items → ∀ indent,
    ScannedAs true (prettyItems indent items) (itemTokens items)
  | [], _, _ => scannedAs_nil
  | [_], hd, indent => ((scannedAs_value hd.1 indent).behindGap (isGap_breakTo _)).ofKeys
  | _ :: _ :: _, hd, indent =>
    (((scannedAs_value hd.1 indent).behindGap (isGap_breakTo _)).ofKeys).comma
      (scannedAs_items hd.2 indent)

theorem scannedAs_entries : ∀ {entries : List (Data × Data)}, ReadableEntries entries → ∀ indent,
    ScannedAs true (prettyEntries indent entries) (entryTokens entries)
  | [], _, _ => scannedAs_nil
  | [(_, _)], hd, indent => by
    have h := (ScannedAs.entry hd.1 (scannedAs_value hd.2.1 indent)).behindGap
      (isGap_breakTo indent)
    simpa [prettyEntries, entryTokens] using h
  | (_, _) :: _ :: _, hd, indent => by
    have h := ((ScannedAs.entry hd.1 (scannedAs_value hd.2.1 indent)).behindGap
      (isGap_breakTo indent)).comma (scannedAs_entries hd.2.2 indent)
    simpa [prettyEntries, entryTokens] using h
end

/-! ### Characters -/

/-- A text in which every character may stand in a YAML text. -/
def Allowed (t : Text) : Prop := ∀ c ∈ t, Yaml.isAllowed c = true

theorem allowed_append : Allowed (t ++ u) ↔ Allowed t ∧ Allowed u := List.forall_mem_append

theorem allowed_cons {c : Char} : Allowed (c :: t) ↔ Yaml.isAllowed c = true ∧ Allowed t :=
  List.forall_mem_cons

theorem allowed_writeText (ht : Legible t) : Allowed (writeText t) := fun _ hc =>
  (Yaml.isAllowed_of_mem_writeText ht hc).1

theorem allowed_bare {w : Text} (hw : Bare w) : Allowed w := fun c hc => by
  have hrange := Yaml.toNat_of_isBareChar (hw.chars c hc)
  simp only [Yaml.isAllowed, Bool.or_eq_true, Bool.and_eq_true, decide_eq_true_eq]
  omega

theorem allowed_breakTo (indent : Nat) : Allowed (breakTo indent) := by
  rintro c hc
  rcases isGap_breakTo indent c hc with rfl | rfl <;> rfl

/-- A collection over several lines. -/
theorem allowed_lines {x y : Char} (hx : Yaml.isAllowed x = true) (hy : Yaml.isAllowed y = true)
    (ht : Allowed t) (indent : Nat) : Allowed (x :: t ++ breakTo indent ++ [y]) :=
  allowed_append.mpr ⟨allowed_append.mpr ⟨allowed_cons.mpr ⟨hx, ht⟩, allowed_breakTo indent⟩,
    allowed_cons.mpr ⟨hy, nofun⟩⟩

theorem allowed_entry {k : Data} (hk : IsKey k) (ht : Allowed t) (indent : Nat) :
    Allowed (breakTo indent ++ write k ++ ':' :: ' ' :: t) := by
  obtain ⟨name, rfl, hname, -⟩ := hk
  rw [write_text]
  exact allowed_append.mpr ⟨allowed_append.mpr ⟨allowed_breakTo indent, allowed_writeText hname⟩,
    allowed_cons.mpr ⟨rfl, allowed_cons.mpr ⟨rfl, ht⟩⟩⟩

mutual
/-- **All characters of the JSON of a value may stand in a YAML text.** -/
theorem allowed_value : ∀ {d : Data}, Readable d → ∀ indent, Allowed (writePretty indent d)
  | .text _, hd, _ => allowed_writeText hd
  | .list [], _, _ => allowed_cons.mpr ⟨rfl, allowed_cons.mpr ⟨rfl, nofun⟩⟩
  | .list (_ :: _), hd, indent => allowed_lines rfl rfl (allowed_items hd _) indent
  | .map [], _, _ => allowed_cons.mpr ⟨rfl, allowed_cons.mpr ⟨rfl, nofun⟩⟩
  | .map (_ :: _), hd, indent => allowed_lines rfl rfl (allowed_entries hd.2 _) indent
  | .tagged _ inner, hd, indent => @allowed_value inner hd indent
  | .null, _, _ => allowed_bare bare_null
  | .bool b, _, _ => allowed_bare (bare_bool b)
  | .int n, _, _ => allowed_bare (bare_ofInt n)
  | .float f x, _, _ => allowed_bare (bare_write f x)

theorem allowed_items : ∀ {items : List Data}, ReadableItems items → ∀ indent,
    Allowed (prettyItems indent items)
  | [], _, _ => nofun
  | [_], hd, indent => allowed_append.mpr ⟨allowed_breakTo indent, allowed_value hd.1 indent⟩
  | _ :: _ :: _, hd, indent =>
    allowed_append.mpr ⟨allowed_append.mpr ⟨allowed_breakTo indent, allowed_value hd.1 indent⟩,
      allowed_cons.mpr ⟨rfl, allowed_items hd.2 indent⟩⟩

theorem allowed_entries : ∀ {entries : List (Data × Data)}, ReadableEntries entries → ∀ indent,
    Allowed (prettyEntries indent entries)
  | [], _, _ => nofun
  | [(_, _)], hd, indent => allowed_entry hd.1 (allowed_value hd.2.1 indent) indent
  | (_, _) :: _ :: _, hd, indent =>
    allowed_append.mpr ⟨allowed_entry hd.1 (allowed_value hd.2.1 indent) indent,
      allowed_cons.mpr ⟨rfl, allowed_entries hd.2.2 indent⟩⟩
end

/-- **The JSON of a map is scanned as its tokens.** -/
theorem tokens?_writePretty {entries : List (Data × Data)} (h : Readable (.map entries)) :
    Yaml.tokens? (writePretty 0 (.map entries)) = some (tokensOf (.map entries)) := by
  obtain ⟨s, hscans, hs⟩ := scans_map (fun indent => scannedAs_entries h.2 indent)
    (show (Scanner.start (writePretty 0 (.map entries))).InFlow 0 true
      (writePretty 0 (.map entries) ++ []) [] by
        rw [List.append_nil]
        exact Scanner.inFlow_start _)
  have htokens := Yaml.tokens?_of_scans (allowed_value h 0) hscans hs.exists_finish
  rwa [List.append_nil, List.reverse_reverse] at htokens

end NotePress.Json
