import TokenRing.Json.Numeral
import TokenRing.Json.TextLiteral

/-!
# Reading JSON

A reader takes a value from the front of a text and returns it with the rest. Readers say what
they want, so a value of another kind is read just far enough to name it.
-/

namespace TokenRing.Json

abbrev Reader (α : Type) := List Char → Except Fault (α × List Char)

def isBlank (c : Char) : Bool :=
  c = ' ' || c = '\t' || c = '\n' || c = '\r'

def skipBlank (text : List Char) : List Char :=
  text.dropWhile isBlank

def readWord : (word : List Char) → List Char → Except Fault (List Char)
  | [], text => .ok text
  | _ :: _, [] => .error .truncated
  | w :: word, c :: text => if c = w then readWord word text else .error .malformed

def findKind (text : List Char) : Except Fault Found :=
  match text with
  | [] => .error .truncated
  | 'n' :: rest => (readWord ['u', 'l', 'l'] rest).map fun _ => .null
  | 't' :: rest => (readWord ['r', 'u', 'e'] rest).map fun _ => .boolean true
  | 'f' :: rest => (readWord ['a', 'l', 's', 'e'] rest).map fun _ => .boolean false
  | '"' :: rest => (readLiteral true .between [] rest).map fun r => .text (String.ofList r.1)
  | '[' :: _ => .ok .sequence
  | '{' :: _ => .ok .mapping
  | c :: _ =>
    if c = '-' || isDigit c then do (← readNumeral .truncated text).1.found
    else .error .malformed

/-- The fault of a value of the wrong kind, or the fault met while it is named. -/
def wrongKind (wanted : Wanted) (text : List Char) : Fault :=
  match findKind text with
  | .ok found => .misfit (.wrongKind found wanted)
  | .error fault => fault

def readText : Reader String := fun text =>
  match skipBlank text with
  | '"' :: rest => (readLiteral true .between [] rest).map fun r => (String.ofList r.1, r.2)
  | text => .error (wrongKind .text text)

def readOptionalText : Reader (Option String) := fun text =>
  match skipBlank text with
  | 'n' :: rest => (readWord ['u', 'l', 'l'] rest).map fun rest => (none, rest)
  | text => (readText text).map fun r => (some r.1, r.2)

def readNatural (greatest : Nat) : Reader Nat := fun text =>
  match skipBlank text with
  | [] => .error .truncated
  | text => do
    let (digits, rest) ← readWhole .malformed text
    let n := Numeral.natural digits
    if n ≤ greatest then return (n, rest) else .error .malformed

inductive Next where
  /-- A value or a key, at the front of the rest. -/
  | item (rest : List Char)
  /-- The end, before the rest. -/
  | closed (rest : List Char)

/-- Goes to the next value of a sequence, which the first one has no comma before. -/
def nextValue (isFirst : Bool) (text : List Char) : Except Fault Next :=
  match skipBlank text with
  | [] => .error .truncated
  | ']' :: rest => .ok (.closed rest)
  | c :: rest =>
    if isFirst then .ok (.item (c :: rest))
    else if c = ',' then
      match skipBlank rest with
      | [] => .error .truncated
      | ']' :: _ => .error .malformed
      | rest => .ok (.item rest)
    else .error .malformed

def nextKey (isFirst : Bool) (text : List Char) : Except Fault Next :=
  match skipBlank text with
  | [] => .error .truncated
  | '}' :: rest => .ok (.closed rest)
  | c :: rest =>
    let key := if isFirst then c :: rest else skipBlank rest
    if !isFirst && c ≠ ',' then .error .malformed
    else
      match key with
      | [] => .error .truncated
      | '"' :: rest => .ok (.item rest)
      | _ => .error .malformed

def readColon (text : List Char) : Except Fault (List Char) :=
  match skipBlank text with
  | [] => .error .truncated
  | ':' :: rest => .ok rest
  | _ => .error .malformed

def closeSequence (text : List Char) : Except Fault (List Char) :=
  match skipBlank text with
  | [] => .error .truncated
  | ']' :: rest => .ok rest
  | _ => .error .malformed

/-- Reads values up to the end of a sequence. Each takes up a character at least, so `fuel` beyond
the length of the text is enough. -/
def readValues {α : Type} (value : Reader α) : (fuel : Nat) → (isFirst : Bool) → Reader (List α)
  | 0, _, _ => .error .truncated
  | fuel + 1, isFirst, text => do
    match ← nextValue isFirst text with
    | .closed rest => return ([], rest)
    | .item text =>
      let (head, text) ← value text
      let (tail, rest) ← readValues value fuel false text
      return (head :: tail, rest)

def readSequence {α : Type} (value : Reader α) : Reader (List α) := fun text =>
  match skipBlank text with
  | '[' :: rest => readValues value (rest.length + 1) true rest
  | text => .error (wrongKind .sequence text)

def readEntries {α : Type} (value : Reader α) :
    (fuel : Nat) → (isFirst : Bool) → Reader (List (String × α))
  | 0, _, _ => .error .truncated
  | fuel + 1, isFirst, text => do
    match ← nextKey isFirst text with
    | .closed rest => return ([], rest)
    | .item text =>
      let (key, text) ← readLiteral true .between [] text
      let (head, text) ← value (← readColon text)
      let (tail, rest) ← readEntries value fuel false text
      return ((String.ofList key, head) :: tail, rest)

def readMapping {α : Type} (value : Reader α) : Reader (List (String × α)) := fun text =>
  match skipBlank text with
  | '{' :: rest => readEntries value (rest.length + 1) true rest
  | text => .error (wrongKind .mapping text)

def readDocument {α : Type} (value : Reader α) (text : List Char) : Except Fault α := do
  let (result, rest) ← value text
  if (skipBlank rest).isEmpty then return result else .error .malformed

end TokenRing.Json
