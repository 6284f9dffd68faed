import TokenRing.Text.Glyphless
import TokenRing.Text.Hex

/-!
# Quoted text

Text between quotes for messages that show what was found. The quote itself, the backslash and
whatever has no glyph is escaped; all else stands for itself.
-/

namespace TokenRing.Text

def escape (quote : Char) (c : Char) : List Char :=
  if c = '\x00' then ['\\', '0']
  else if c = '\t' then ['\\', 't']
  else if c = '\r' then ['\\', 'r']
  else if c = '\n' then ['\\', 'n']
  else if c = quote ∨ c = '\\' then ['\\', c]
  else if isGlyphless c then ['\\', 'u', '\x7b'] ++ hex c.toNat ++ ['\x7d']
  else [c]

def quoted (text : List Char) : List Char :=
  '"' :: text.flatMap (escape '"') ++ ['"']

def quotedChar (c : Char) : List Char :=
  '\x27' :: escape '\x27' c ++ ['\x27']

end TokenRing.Text
