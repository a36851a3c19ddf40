/-!
# Texts as bytes

The bytes of a text in UTF-8, and the text of a list of bytes that is valid UTF-8.
-/

namespace Predictive.Text

/-- The bytes of a text. -/
def utf8 (s : String) : List UInt8 := s.toUTF8.data.toList

/-- The text of a list of bytes, if they are valid UTF-8. -/
def ofUtf8? (bytes : List UInt8) : Option String := String.fromUTF8? ⟨bytes.toArray⟩

end Predictive.Text
