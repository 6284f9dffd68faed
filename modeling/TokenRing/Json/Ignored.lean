import TokenRing.Json.Reader

/-!
# Ignored values

A value of any kind, passed over without being kept. It must be well-formed, but the halves of
surrogate pairs in its texts need not match, and a number may be too large for any type.
-/

namespace TokenRing.Json

mutual

def skipValue : (fuel : Nat) → List Char → Except Fault (List Char)
  | 0, _ => .error .truncated
  | fuel + 1, text =>
    match skipBlank text with
    | [] => .error .truncated
    | '"' :: rest => (readLiteral false .between [] rest).map (·.2)
    | '[' :: rest => skipValues fuel true rest
    | '{' :: rest => skipEntries fuel true rest
    | 'n' :: rest => readWord ['u', 'l', 'l'] rest
    | 't' :: rest => readWord ['r', 'u', 'e'] rest
    | 'f' :: rest => readWord ['a', 'l', 's', 'e'] rest
    | c :: rest =>
      if c = '-' || isDigit c then (readNumeral .malformed (c :: rest)).map (·.2)
      else .error .malformed

def skipValues : (fuel : Nat) → (isFirst : Bool) → List Char → Except Fault (List Char)
  | 0, _, _ => .error .truncated
  | fuel + 1, isFirst, text => do
    match ← nextValue isFirst text with
    | .closed rest => return rest
    | .item text => skipValues fuel false (← skipValue fuel text)

def skipEntries : (fuel : Nat) → (isFirst : Bool) → List Char → Except Fault (List Char)
  | 0, _, _ => .error .truncated
  | fuel + 1, isFirst, text => do
    match ← nextKey isFirst text with
    | .closed rest => return rest
    | .item text =>
      let (_, text) ← readLiteral false .between [] text
      skipEntries fuel false (← skipValue fuel (← readColon text))

end

/-- The text behind a value. Each level of nesting and each value beside another takes up a
character, which bounds the recursion. -/
def skip (text : List Char) : Except Fault (List Char) :=
  skipValue (2 * text.length + 2) text

end TokenRing.Json
