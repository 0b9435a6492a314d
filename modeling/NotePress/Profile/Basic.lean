import NotePress.Number.Floating
import NotePress.Text.Basic

/-!
# Profiles

A profile is a named bundle of export settings; a partly written one is completed from the default.
The image scale is a number of 32 bits and reaches note text only as a percentage of the line width.
-/

namespace NotePress

/-- Caption titles and prefixes of cross-references. -/
structure Labels where
  figureTitle : Text := "Figure".toList
  tableTitle : Text := "Table".toList
  listingTitle : Text := "Listing".toList
  equationTitle : Text := "Equation".toList
  figurePrefix : Text := "Fig.".toList
  tablePrefix : Text := "Tab.".toList
  listingPrefix : Text := "Lst.".toList
  equationPrefix : Text := "Eq.".toList
  deriving DecidableEq, Repr

/-- The settings of an export. -/
structure Profile where
  /-- The compiler; none means `pandoc` as found on the search path. -/
  pandocPath : Option Text := none
  /-- The engine that makes PDF files. -/
  latexEngine : Text := "xelatex".toList
  /-- Filters in the order they run. -/
  filters : List Text := []
  /-- Whether the cross-reference filter runs, and which it is. -/
  crossref : Bool := true
  crossrefFilter : Text := "pandoc-crossref".toList
  /-- Where the compiler looks for files. -/
  resourcePath : Option Text := none
  /-- The directory that matching by name is limited to when notes are lowered. -/
  searchDirectory : Option Text := none
  /-- What stands ahead of the document, as the user wrote it. -/
  customHeader : Text := []
  labels : Labels := {}
  marginsEnabled : Bool := false
  margin : Text := "2cm".toList
  pageNumbers : Bool := true
  /-- Whether images are scaled, and to what part of the line width. -/
  scaleImages : Bool := true
  imageScale : Floating := .finite false 13421773 (-24)
  fontSize : Option Text := none
  documentClass : Text := "article".toList
  classOptions : Option Text := none
  standalone : Bool := true
  /-- Whether macros in the source are read. -/
  advancedCommands : Bool := false
  /-- Arguments for the compiler. -/
  extraArgs : List Text := []
  /-- Whether, and by which command line, the text is fixed before it is compiled. -/
  lintOnExport : Bool := false
  lintCommand : Option Text := none
  deriving DecidableEq, Repr

namespace Profile

/-- The compiler command. -/
def compiler (p : Profile) : Text := p.pandocPath.getD "pandoc".toList

/-- Whether the document class is that of slides. -/
def makesSlides (p : Profile) : Bool := Text.sameAscii p.documentClass.trim "beamer".toList

/-- One hundredth, as a number of 32 bits. -/
def smallestScale : Nat × Int := (10737418, -30)

/-- A scale as a whole percentage: kept between one hundredth and one, multiplied in 32 bits, a half
rounded up. What is not a number gives zero. -/
def percentOf : Floating → Nat
  | .nan => 0
  | .infinite negative => if negative then 1 else 100
  | .finite negative m e =>
    let (m, e) :=
      if negative = true ∨ Floating.magnitudeLt m e
          (Floating.magnitude smallestScale.1 smallestScale.2).1
          (Floating.magnitude smallestScale.1 smallestScale.2).2 = true then smallestScale
      else if Floating.magnitudeLt m e 1 1 then (m, e)
      else (1, 0)
    let (n, d) := Floating.magnitude m e
    match single.round (100 * n) d with
    | some (m, e) =>
      let (n, d) := Floating.magnitude m e
      (2 * n + d) / (2 * d)
    | none => 100

/-- The width of images, if they are scaled. -/
def shownWidth (p : Profile) : Option Text :=
  if p.scaleImages then some (Text.ofNat (percentOf p.imageScale) ++ ['%']) else none

/-- Whether two profiles have equal settings; an image scale that is not a number equals none. -/
def same (p q : Profile) : Bool :=
  Floating.same p.imageScale q.imageScale && { p with imageScale := q.imageScale } = q

end Profile

end NotePress
