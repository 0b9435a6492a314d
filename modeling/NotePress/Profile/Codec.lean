import NotePress.Data.Basic
import NotePress.Profile.Basic

/-!
# Profiles as data

A record is written as a map of its fields in the order they are declared, and read from a map in
any order: unknown keys are passed over, missing ones keep their defaults, and a field with a value
of the wrong kind refuses the whole record. Tags around values do not matter.
-/

namespace NotePress

/-- What else a reader accepts. -/
structure ReadingRules where
  /-- Whether a list is read as the first fields of a record. -/
  listAsRecord : Bool
  /-- Whether null is read as an empty list or record. -/
  nullAsEmpty : Bool
  deriving DecidableEq, Repr

/-- Requests hold records as maps or lists. -/
def ReadingRules.request : ReadingRules := ⟨true, false⟩

/-- Settings files hold records as maps or null. -/
def ReadingRules.settings : ReadingRules := ⟨false, true⟩

/-- A field of a record: its name, and how its value is written and read. -/
structure Field (α : Type) where
  name : Text
  get : α → Data
  set : ReadingRules → α → Data → Option α

namespace Field

/-- Reads a truth value. -/
def readBool? (d : Data) : Option Bool :=
  match d.untag with
  | .bool b => some b
  | _ => none

/-- Reads a number of 32 bits. -/
def readSingle? (d : Data) : Option Floating :=
  match d.untag with
  | .int n => some (Floating.ofInt single n)
  | .float _ x => some (x.convert single)
  | _ => none

/-- Reads a text that may be null. -/
def readOptional? (d : Data) : Option (Option Text) :=
  match d with
  | .null => some none
  | _ => d.text?.map some

/-- Reads a list of texts. -/
def readTexts? (rules : ReadingRules) (d : Data) : Option (List Text) :=
  match d.untag with
  | .list items => items.mapM Data.text?
  | .null => if rules.nullAsEmpty then some [] else none
  | _ => none

/-- A field that holds a text. -/
def text {α : Type} (name : String) (get : α → Text) (set : α → Text → α) : Field α :=
  ⟨name.toList, fun a => .text (get a), fun _ a d => d.text?.map (set a)⟩

/-- A field that holds a text or nothing. -/
def optional {α : Type} (name : String) (get : α → Option Text) (set : α → Option Text → α) :
    Field α :=
  ⟨name.toList, fun a => ((get a).map Data.text).getD .null,
    fun _ a d => (readOptional? d).map (set a)⟩

/-- A field that holds a list of texts. -/
def texts {α : Type} (name : String) (get : α → List Text) (set : α → List Text → α) : Field α :=
  ⟨name.toList, fun a => .list ((get a).map Data.text),
    fun rules a d => (readTexts? rules d).map (set a)⟩

/-- A field that holds a truth value. -/
def bool {α : Type} (name : String) (get : α → Bool) (set : α → Bool → α) : Field α :=
  ⟨name.toList, fun a => .bool (get a), fun _ a d => (readBool? d).map (set a)⟩

end Field

/-- Writes a record as a map. -/
def writeRecord {α : Type} (fields : List (Field α)) (a : α) : Data :=
  .map (fields.map fun f => (.text f.name, f.get a))

/-- Sets the field of a key; a key that names no field changes nothing. -/
def setField? {α : Type} (rules : ReadingRules) (fields : List (Field α)) (a : α)
    (entry : Text × Data) : Option α :=
  match fields.find? fun f => f.name = entry.1 with
  | some f => f.set rules a entry.2
  | none => some a

/-- Sets fields one after the other; no field is set twice. -/
def setFields? {α : Type} (rules : ReadingRules) (fields : List (Field α)) (a : α)
    (entries : List (Text × Data)) : Option α :=
  let known := (entries.map (·.1)).filter fun k => fields.any fun f => f.name = k
  if known.eraseDups.length = known.length then entries.foldlM (setField? rules fields) a else none

/-- Reads a record. -/
def readRecord? {α : Type} (rules : ReadingRules) (fields : List (Field α)) (start : α) (d : Data) :
    Option α :=
  match d.untag with
  | .map entries =>
    (entries.mapM fun (e : Data × Data) => e.1.text?.map fun k => (k, e.2)).bind
      (setFields? rules fields start)
  | .list items =>
    if rules.listAsRecord ∧ items.length ≤ fields.length then
      setFields? rules fields start ((fields.map (·.name)).zip items)
    else none
  | .null => if rules.nullAsEmpty then some start else none
  | _ => none

namespace Labels

/-- The fields of the labels. -/
def fields : List (Field Labels) :=
  [.text "figureTitle" (·.figureTitle) fun l t => { l with figureTitle := t },
   .text "tableTitle" (·.tableTitle) fun l t => { l with tableTitle := t },
   .text "listingTitle" (·.listingTitle) fun l t => { l with listingTitle := t },
   .text "equationTitle" (·.equationTitle) fun l t => { l with equationTitle := t },
   .text "figurePrefix" (·.figurePrefix) fun l t => { l with figurePrefix := t },
   .text "tablePrefix" (·.tablePrefix) fun l t => { l with tablePrefix := t },
   .text "listingPrefix" (·.listingPrefix) fun l t => { l with listingPrefix := t },
   .text "equationPrefix" (·.equationPrefix) fun l t => { l with equationPrefix := t }]

/-- Writes labels as a map. -/
def toData (l : Labels) : Data := writeRecord fields l

/-- Reads labels; what is missing keeps its default. -/
def ofData? (rules : ReadingRules) (d : Data) : Option Labels := readRecord? rules fields {} d

end Labels

namespace Profile

/-- The fields of a profile. -/
def fields : List (Field Profile) :=
  [.optional "pandocPath" (·.pandocPath) fun p t => { p with pandocPath := t },
   .text "latexEngine" (·.latexEngine) fun p t => { p with latexEngine := t },
   .texts "filters" (·.filters) fun p ts => { p with filters := ts },
   .bool "crossref" (·.crossref) fun p b => { p with crossref := b },
   .text "crossrefFilter" (·.crossrefFilter) fun p t => { p with crossrefFilter := t },
   .optional "resourcePath" (·.resourcePath) fun p t => { p with resourcePath := t },
   .optional "searchDirectory" (·.searchDirectory) fun p t => { p with searchDirectory := t },
   .text "customHeader" (·.customHeader) fun p t => { p with customHeader := t },
   ⟨"labels".toList, fun p => p.labels.toData,
     fun rules p d => (Labels.ofData? rules d).map fun l => { p with labels := l }⟩,
   .bool "marginsEnabled" (·.marginsEnabled) fun p b => { p with marginsEnabled := b },
   .text "margin" (·.margin) fun p t => { p with margin := t },
   .bool "pageNumbers" (·.pageNumbers) fun p b => { p with pageNumbers := b },
   .bool "scaleImages" (·.scaleImages) fun p b => { p with scaleImages := b },
   ⟨"imageScale".toList, fun p => .float single p.imageScale,
     fun _ p d => (Field.readSingle? d).map fun x => { p with imageScale := x }⟩,
   .optional "fontSize" (·.fontSize) fun p t => { p with fontSize := t },
   .text "documentClass" (·.documentClass) fun p t => { p with documentClass := t },
   .optional "classOptions" (·.classOptions) fun p t => { p with classOptions := t },
   .bool "standalone" (·.standalone) fun p b => { p with standalone := b },
   .bool "advancedCommands" (·.advancedCommands) fun p b => { p with advancedCommands := b },
   .texts "extraArgs" (·.extraArgs) fun p ts => { p with extraArgs := ts },
   .bool "lintOnExport" (·.lintOnExport) fun p b => { p with lintOnExport := b },
   .optional "lintCommand" (·.lintCommand) fun p t => { p with lintCommand := t }]

/-- Writes a profile as a map. -/
def toData (p : Profile) : Data := writeRecord fields p

/-- Reads a profile; what is missing keeps its default. -/
def ofData? (rules : ReadingRules) (d : Data) : Option Profile := readRecord? rules fields {} d

end Profile

end NotePress
