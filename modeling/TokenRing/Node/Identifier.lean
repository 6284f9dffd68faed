import TokenRing.Node
import TokenRing.Text.Decimal

/-!
# Identifiers as texts

A text of digits alone is a decimal number. Any other text must be a UUID in one of its usual
forms: 32 hexadecimal digits; the same in five groups with hyphens between them; that form in
braces, or behind `urn:uuid:`.
-/

namespace TokenRing

inductive NodeIdFault where
  | number (fault : Text.IntegerFault)
  | notUuid
  deriving DecidableEq, Repr

namespace NodeId

def groupLengths : List Nat :=
  [8, 4, 4, 4, 12]

/-- The digits of groups of the given lengths, with a hyphen between two. -/
def readGroups? : (lengths : List Nat) → List Char → Option (List Char)
  | [], _ => none
  | [length], text => if text.length = length then some text else none
  | length :: lengths, text =>
    match text.drop length with
    | '-' :: rest => (readGroups? lengths rest).map (text.take length ++ ·)
    | _ => none

/-- A UUID's text without its braces or its mark. -/
def unwrap (text : List Char) : List Char :=
  if text.head? = some '\x7b' ∧ text.getLast? = some '\x7d' then (text.drop 1).dropLast
  else if (text.take 9).map Char.toLower = "urn:uuid:".toList then text.drop 9
  else text

def uuidDigits? (text : List Char) : Option (List Char) :=
  if text.length = 32 then some text else readGroups? groupLengths (unwrap text)

def ofUuid? (text : List Char) : Option NodeId := do
  ofNat? (← Text.readHex? 0 (← uuidDigits? text))

def ofDecimal (text : List Char) : Except Text.IntegerFault NodeId := do
  match ofNat? (← Text.parseNat 0xffffffffffffffffffffffffffffffff text) with
  | some id => return id
  | none => .error .tooLarge

def isDecimal (text : List Char) : Bool :=
  !text.isEmpty && text.all fun c => (Text.decimalValue? c).isSome

def parse (text : String) : Except NodeIdFault NodeId :=
  if isDecimal text.toList then (ofDecimal text.toList).mapError .number
  else
    match ofUuid? text.toList with
    | some id => .ok id
    | none => .error .notUuid

end NodeId

end TokenRing
