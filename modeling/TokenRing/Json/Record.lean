import TokenRing.Json.Ignored

/-!
# Records

A record is written as a mapping from the names of its fields, in any order and among fields that
are not its own, or as the sequence of its fields in order. What has been read is collected in a
draft, and a finished draft becomes the record.
-/

namespace TokenRing.Json

/-- A field of a record whose draft is a `δ`. -/
structure Field (δ : Type) where
  name : String
  /-- Whether the record cannot do without the field. -/
  required : Bool
  /-- Whether the draft holds the field. -/
  isRead : δ → Bool
  /-- Reads the field into the draft. -/
  read : δ → Reader δ

def Field.ofReader {δ β : Type} (name : String) (required : Bool) (get : δ → Option β)
    (set : δ → β → δ) (value : Reader β) : Field δ where
  name := name
  required := required
  isRead draft := (get draft).isSome
  read draft text := (value text).map fun r => (set draft r.1, r.2)

structure Record (δ α : Type) where
  name : String
  fields : List (Field δ)
  /-- The draft without any field. -/
  blank : δ
  /-- The record of a draft, or the first field that is missing. -/
  finish : δ → Except Fault α

def require {β : Type} (name : String) : Option β → Except Fault β
  | some value => .ok value
  | none => .error (.misfit (.missingField name))

namespace Record

variable {δ α : Type}

def readNamed (record : Record δ α) : (fuel : Nat) → (isFirst : Bool) → δ → Reader δ
  | 0, _, _, _ => .error .truncated
  | fuel + 1, isFirst, draft, text => do
    match ← nextKey isFirst text with
    | .closed rest => return (draft, rest)
    | .item text =>
      let (key, text) ← readLiteral true .between [] text
      match record.fields.find? fun f => f.name.toList = key with
      | none => readNamed record fuel false draft (← skip (← readColon text))
      | some field =>
        if field.isRead draft then .error (.misfit (.duplicateField field.name))
        else
          let (draft, text) ← field.read draft (← readColon text)
          readNamed record fuel false draft text

def readInOrder (record : Record δ α) (index : Nat) : List (Field δ) → δ → Reader δ
  | [], draft, text => (closeSequence text).map fun rest => (draft, rest)
  | field :: fields, draft, text => do
    match ← nextValue (index = 0) text with
    | .closed rest =>
      match (field :: fields).findIdx? (·.required) with
      | some missing =>
        .error (.misfit (.tooShort (index + missing) record.name record.fields.length))
      | none => return (draft, rest)
    | .item text =>
      let (draft, text) ← field.read draft text
      readInOrder record (index + 1) fields draft text

def read (record : Record δ α) : Reader α := fun text => do
  let (draft, rest) ← match skipBlank text with
    | '{' :: rest => record.readNamed (rest.length + 1) true record.blank rest
    | '[' :: rest => record.readInOrder 0 record.fields record.blank rest
    | text => .error (wrongKind (.record record.name) text)
  return (← record.finish draft, rest)

end Record

end TokenRing.Json
