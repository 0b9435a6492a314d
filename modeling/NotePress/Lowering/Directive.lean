import NotePress.Document.Id

/-!
# Directives for the compiler

What takes the place of embeds and fences: images with an attribute block, links, and listings. A
figure with a label needs a caption, so it gets a space if it has none. A quoted image is a plain
one, since numbered figures cannot float inside a quotation.
-/

namespace NotePress

/-- A label with the namespace that the cross-reference filter expects, such as `fig:name`. -/
def labelIn (label space : Text) : Text :=
  let label := label.trim.dropWhile (· = '#')
  let opening := space ++ [':']
  if Text.startsWith label opening then label else opening ++ label

/-- A document's path as the target of a link; in angle brackets if it needs them. -/
def destinationOf (target : DocumentId) : Text :=
  if target.path.any fun c => isBlank c || c = '(' || c = ')' || c = '<' || c = '>' then
    '<' :: target.path ++ ['>']
  else target.path

/-- Takes angle brackets off a link target and writes `%20` as a space. -/
def readDestination (raw : Text) : Text :=
  let inner := match Text.dropOpening? ['<'] raw with
    | some rest => (Text.dropEnding? ['>'] rest).getD raw
    | none => raw
  Text.replace "%20".toList [' '] inner

/-- The entries that are present in an attribute block; nothing if none is. -/
def bracedEntries (entries : List (Option Text)) : Text :=
  match entries.filterMap id with
  | [] => []
  | present => '\x7b' :: Text.join [' '] present ++ ['\x7d']

/-- An entry `key=value`. -/
def attributeEntry (key : String) (value : Option Text) : Option Text :=
  value.map fun v => key.toList ++ '=' :: v

/-- An image with its caption and attribute block. -/
def figureOf (target : DocumentId) (label caption width height : Option Text) : Text :=
  let label := label.map fun l => labelIn l "fig".toList
  let caption := caption.getD (if label.isSome then [' '] else [])
  "![".toList ++ caption ++ "](".toList ++ destinationOf target ++ [')'] ++
    bracedEntries
      [label.map ('#' :: ·), attributeEntry "width" width, attributeEntry "height" height]

/-- A quoted image, which has a width only. -/
def quotedImage (quote : Text) (target : DocumentId) (width : Option Text) : Text :=
  quote ++ "![](".toList ++ destinationOf target ++ [')'] ++
    bracedEntries [attributeEntry "width" width]

/-- A link to a note that cannot stand in the text itself. -/
def noteLink (quote : Text) (target : DocumentId) (linkText : Option Text) : Text :=
  quote ++ '[' :: linkText.getD target.stem ++ "](".toList ++ destinationOf target ++ [')']

/-- An option `key={value}` of a listing. -/
def bracedOption (key : String) (value : Text) : Text :=
  key.toList ++ '=' :: '\x7b' :: value ++ ['\x7d']

/-- The options of a listing. A language with a bracket in its name stands in braces. -/
def listingOptions (language label caption : Option Text) : List Text :=
  (language.map fun l =>
      if '[' ∈ l then bracedOption "language" l else "language=".toList ++ l).toList ++
    (label.map fun l => bracedOption "label" (labelIn l "lst".toList)).toList ++
    (caption.map (bracedOption "caption")).toList

/-- What begins a listing. -/
def listingBegin : Text := "\\begin\x7blstlisting\x7d".toList

/-- What ends a listing. -/
def listingEnd : Text := "\\end\x7blstlisting\x7d".toList

/-- A listing with its options. -/
def listingOf (quote : Text) (language label caption : Option Text) (body : Text) : Text :=
  let options := match listingOptions language label caption with
    | [] => []
    | present => '[' :: Text.join [','] present ++ [']']
  quote ++ listingBegin ++ options ++ '\n' :: (if body = [] then [] else body ++ ['\n']) ++
    quote ++ listingEnd

/-- Puts a quote prefix in front of every line. -/
def quoteLines (quote t : Text) : Text :=
  if quote = [] then t else Text.unlines (t.breakLines.map (quote ++ ·))

end NotePress
