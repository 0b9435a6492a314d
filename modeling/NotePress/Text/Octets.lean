import NotePress.Text.Utf8

/-!
# Octets

A script, the words it hands to programs and the values it handles are rows of octets. Each octet is
held as the character of its number, so that lengths, patterns and blanks go by octets whatever the
text is.
-/

namespace NotePress.Octets

/-- The octets of some bytes. -/
def ofBytes (bytes : List UInt8) : Text := bytes.map fun b => Char.ofNat b.toNat

/-- The bytes of some octets. -/
def toBytes (t : Text) : List UInt8 := t.map fun c => c.toNat.toUInt8

/-- The octets of a text. -/
def ofText (t : Text) : Text := ofBytes (Text.encode t)

/-- The text that octets spell out. -/
def toText (t : Text) : Text := Text.decodeLossy (toBytes t)

end NotePress.Octets
