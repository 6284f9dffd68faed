import TokenRing.Text.Decimal
import TokenRing.Text.Quoted

/-!
# Faults of JSON documents

A document may end too early, break the grammar, or hold a value of the wrong shape. Reading stops
at the first fault.
-/

namespace TokenRing.Json

/-- What stands where another kind of value is wanted. -/
inductive Found where
  | null
  | boolean (value : Bool)
  | integer (value : Int)
  /-- A number that is no integer of 64 bits, as it is shown. -/
  | floating (shown : String)
  | text (value : String)
  | sequence
  | mapping
  deriving DecidableEq, Repr

inductive Wanted where
  | text
  | sequence
  | mapping
  | record (name : String)
  deriving DecidableEq, Repr

/-- How a well-formed document fails to describe what is wanted. -/
inductive Misfit where
  | missingField (name : String)
  | duplicateField (name : String)
  | wrongKind (found : Found) (wanted : Wanted)
  /-- A record written as a sequence ends before its required field at an index. -/
  | tooShort (index : Nat) (record : String) (fields : Nat)
  deriving DecidableEq, Repr

inductive Fault where
  /-- The document ends too early. -/
  | truncated
  /-- The document breaks the grammar. -/
  | malformed
  | misfit (misfit : Misfit)
  deriving DecidableEq, Repr

def Found.shown : Found → String
  | null => "null"
  | boolean value => s!"boolean `{value}`"
  | integer value => s!"integer `{String.ofList (Text.signedDecimal value)}`"
  | floating number => s!"floating point `{number}`"
  | .text value => "string " ++ String.ofList (Text.quoted value.toList)
  | sequence => "sequence"
  | mapping => "map"

def Wanted.name : Wanted → String
  | text => "a string"
  | sequence => "a sequence"
  | mapping => "a map"
  | record name => s!"struct {name}"

def Misfit.message : Misfit → String
  | missingField name => s!"missing field `{name}`"
  | duplicateField name => s!"duplicate field `{name}`"
  | wrongKind found wanted => s!"invalid type: {found.shown}, expected {wanted.name}"
  | tooShort index record fields =>
    s!"invalid length {index}, expected struct {record} with {fields} elements"

def Fault.message : Fault → String
  | truncated => "the document ends too early"
  | malformed => "the document is not well-formed"
  | .misfit m => m.message

end TokenRing.Json
