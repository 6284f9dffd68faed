/-!
# UTF-8

The bytes of a text.
-/

namespace TokenRing.Text

def utf8 (text : List Char) : List UInt8 :=
  text.flatMap String.utf8EncodeChar

end TokenRing.Text
