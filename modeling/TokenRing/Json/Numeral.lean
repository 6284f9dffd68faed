import TokenRing.Json.Fault
import TokenRing.Text.Shortest

/-!
# Numerals

Numbers as JSON writes them, and the kind of number they stand for: an integer of 64 bits if they
are written as one, otherwise a floating-point number.
-/

namespace TokenRing.Json

def isDigit (c : Char) : Bool :=
  '0' ≤ c && c ≤ '9'

structure Numeral where
  negative : Bool
  whole : List Char
  /-- The digits behind the point. -/
  fraction : Option (List Char)
  /-- Whether the exponent is negative, and its digits. -/
  exponent : Option (Bool × List Char)
  deriving DecidableEq, Repr

/-- Reads one digit or more, with `cut` where the text ends instead. -/
def readDigits (cut : Fault) (text : List Char) : Except Fault (List Char × List Char) :=
  match text.span isDigit with
  | ([], []) => .error cut
  | ([], _ :: _) => .error .malformed
  | (digits, rest) => .ok (digits, rest)

def readWhole (cut : Fault) (text : List Char) : Except Fault (List Char × List Char) := do
  match ← readDigits cut text with
  | ('0' :: _ :: _, _) => .error .malformed
  | whole => return whole

def readFraction (cut : Fault) (text : List Char) :
    Except Fault (Option (List Char) × List Char) :=
  match text with
  | '.' :: rest => do
    let (digits, rest) ← readDigits cut rest
    return (some digits, rest)
  | _ => .ok (none, text)

/-- Whether the sign, if there is one, is a minus, and the text behind it. -/
def readSign : List Char → Bool × List Char
  | '-' :: rest => (true, rest)
  | '+' :: rest => (false, rest)
  | rest => (false, rest)

def readExponent (cut : Fault) (text : List Char) :
    Except Fault (Option (Bool × List Char) × List Char) :=
  match text with
  | 'e' :: rest | 'E' :: rest => do
    let (negative, rest) := readSign rest
    let (digits, rest) ← readDigits cut rest
    return (some (negative, digits), rest)
  | _ => .ok (none, text)

/-- Reads a number. The fault `cut` is given where the text ends and a digit must follow. -/
def readNumeral (cut : Fault) (text : List Char) : Except Fault (Numeral × List Char) := do
  let (negative, text) := match text with
    | '-' :: rest => (true, rest)
    | _ => (false, text)
  let (whole, text) ← readWhole cut text
  let (fraction, text) ← readFraction cut text
  let (exponent, text) ← readExponent cut text
  return (⟨negative, whole, fraction, exponent⟩, text)

namespace Numeral

def natural (digits : List Char) : Nat :=
  digits.foldl (fun n c => 10 * n + (c.toNat - '0'.toNat)) 0

/-- The integer of 64 bits that is written. Minus zero is none. -/
def integer? (n : Numeral) : Option Int :=
  let magnitude := natural n.whole
  if n.fraction.isSome || n.exponent.isSome then none
  else if n.negative then
    if 0 < magnitude ∧ magnitude ≤ 0x8000000000000000 then some (-(magnitude : Int)) else none
  else if magnitude < 0x10000000000000000 then some magnitude else none

/-- The leading digits that make a number below 2^64, and how many digits follow them. -/
def significant (start : Nat) : List Char → Nat × Nat
  | [] => (start, 0)
  | c :: rest =>
    let next := 10 * start + (c.toNat - '0'.toNat)
    if next < 0x10000000000000000 then significant next rest else (start, rest.length + 1)

def scaled (n : Numeral) : Text.Scaled :=
  let (whole, dropped) := significant 0 n.whole
  let fraction := n.fraction.getD []
  let (digits, ignored) := significant whole fraction
  let exponent : Int := match n.exponent with
    | none => 0
    | some (negative, digits) => if negative then -natural digits else natural digits
  ⟨digits, dropped - (fraction.length - ignored) + exponent⟩

/-- Divides by `10 ^ power`, in steps that a float can hold. -/
def divide (x : Float) (power : Nat) : Float :=
  if power ≤ 308 then x / Float.ofScientific 1 false power
  else if x == 0 then x
  else divide (x / Float.ofScientific 1 false 308) (power - 308)
termination_by power

def magnitude? (n : Numeral) : Option Float :=
  let s := n.scaled
  let x := Float.ofNat s.digits
  if s.exponent < 0 then some (divide x s.exponent.natAbs)
  else if s.digits = 0 then some x
  else if 308 < s.exponent then none
  else
    let product := x * Float.ofScientific 1 false s.exponent.toNat
    if product.isInf then none else some product

def showExponent (e : Int) : List Char :=
  'e' :: (if e < 0 then '-' else '+') :: Text.decimal e.natAbs

/-- A magnitude as it is shown: positional from 10^-5 up to 10^16, otherwise with an exponent. -/
def showMagnitude (s : Text.Scaled) : List Char :=
  let digits := Text.decimal s.digits
  let point : Int := digits.length + s.exponent
  if 0 ≤ s.exponent ∧ point ≤ 16 then
    digits ++ List.replicate s.exponent.toNat '0' ++ ['.', '0']
  else if 0 < point ∧ point ≤ 16 then
    digits.take point.toNat ++ '.' :: digits.drop point.toNat
  else if -5 < point ∧ point ≤ 0 then
    ['0', '.'] ++ List.replicate (-point).toNat '0' ++ digits
  else
    let fraction := if digits.length = 1 then [] else '.' :: digits.drop 1
    digits.take 1 ++ fraction ++ showExponent (point - 1)

/-- What a number is found to be. One too large for a float breaks the grammar. -/
def found (n : Numeral) : Except Fault Found :=
  match n.integer? with
  | some value => .ok (.integer value)
  | none =>
    match n.magnitude? with
    | none => .error .malformed
    | some x =>
      let shown := showMagnitude (Text.Binary.ofFloat x).shortest
      .ok (.floating (String.ofList (if n.negative then '-' :: shown else shown)))

end Numeral

end TokenRing.Json
