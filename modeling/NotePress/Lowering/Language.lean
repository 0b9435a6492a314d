import NotePress.Text.Basic

/-!
# Languages of listings

The name that the listings package has for a fence's language tag. Tags without one, those of plain
text among them, have no language.
-/

namespace NotePress

/-- Tags, in lower case, with the languages of the listings package. -/
def listingLanguages : List (List String × String) :=
  [(["py", "python", "python3"], "Python"),
   (["js", "javascript", "ts", "typescript", "jsx", "tsx"], "JavaScript"),
   (["c", "h"], "C"),
   (["cpp", "c++", "cc", "cxx", "hpp"], "C++"),
   (["cs", "csharp", "c#"], "[Sharp]C"),
   (["java"], "Java"),
   (["r"], "R"),
   (["rb", "ruby"], "Ruby"),
   (["sh", "bash", "shell", "zsh", "console"], "bash"),
   (["sql"], "SQL"),
   (["tex", "latex"], "TeX"),
   (["html", "htm"], "HTML"),
   (["xml", "svg"], "XML"),
   (["matlab", "octave"], "Matlab"),
   (["hs", "haskell"], "Haskell"),
   (["pl", "perl"], "Perl"),
   (["php"], "PHP"),
   (["lua"], "Lua"),
   (["f90", "fortran"], "Fortran"),
   (["scala"], "Scala"),
   (["make", "makefile"], "make")]

/-- The language of a tag, whose blanks and ASCII case do not matter. -/
def listingLanguage? (tag : Text) : Option Text :=
  let key := tag.trim.lowerAscii
  (listingLanguages.find? fun l => l.1.any fun t => t.toList = key).map (·.2.toList)

end NotePress
