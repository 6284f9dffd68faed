import TokenRing.Json.TextLiteral
import TokenRing.Text.Decimal

/-!
# Writing JSON

A writer gives the text of a value in a layout, at a depth of nesting.
-/

namespace TokenRing.Json

structure Layout where
  /-- What stands before a value or a closing bracket at a depth. -/
  newline : (depth : Nat) → List Char
  colon : List Char

def Layout.compact : Layout where
  newline _ := []
  colon := [':']

def Layout.pretty : Layout where
  newline depth := '\n' :: List.replicate (2 * depth) ' '
  colon := [':', ' ']

abbrev Writer := Layout → (depth : Nat) → List Char

def writeText (text : String) : Writer := fun _ _ =>
  writeLiteral text.toList

def writeOptionalText : Option String → Writer
  | none => fun _ _ => ['n', 'u', 'l', 'l']
  | some text => writeText text

def writeNatural (n : Nat) : Writer := fun _ _ =>
  Text.decimal n

def writeItems (opening closing : Char) (items : List Writer) : Writer := fun layout depth =>
  let item (w : Writer) := layout.newline (depth + 1) ++ w layout (depth + 1)
  match items with
  | [] => [opening, closing]
  | first :: rest =>
    opening :: item first ++ rest.flatMap (',' :: item ·) ++ layout.newline depth ++ [closing]

def writeSequence (values : List Writer) : Writer :=
  writeItems '[' ']' values

def writeEntry (key : String) (value : Writer) : Writer := fun layout depth =>
  writeLiteral key.toList ++ layout.colon ++ value layout depth

def writeMapping (entries : List (String × Writer)) : Writer :=
  writeItems '\x7b' '\x7d' (entries.map fun e => writeEntry e.1 e.2)

end TokenRing.Json
