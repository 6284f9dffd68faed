/-!
# Decimal integers

Writing integers in decimal, and reading them back from an untrusted text. A reader goes through
the digits from the left and stops at the first fault: a character that is no digit, or a digit
that takes the value out of its range.
-/

namespace TokenRing.Text

def decimalDigit (d : Nat) : Char :=
  Char.ofNat ('0'.toNat + d)

def decimalValue? (c : Char) : Option Nat :=
  if '0' ≤ c ∧ c ≤ '9' then some (c.toNat - '0'.toNat) else none

def decimal (n : Nat) : List Char :=
  if n < 10 then [decimalDigit n] else decimal (n / 10) ++ [decimalDigit (n % 10)]
termination_by n
decreasing_by omega

def signedDecimal (n : Int) : List Char :=
  if n < 0 then '-' :: decimal n.natAbs else decimal n.natAbs

inductive IntegerFault where
  /-- There is no character at all. -/
  | empty
  /-- A character is not a decimal digit, or a sign has no digit after it. -/
  | invalidDigit
  /-- The value passes the greatest integer of the range. -/
  | tooLarge
  /-- The value passes the least integer of the range. -/
  | tooSmall
  deriving DecidableEq, Repr

def IntegerFault.message : IntegerFault → String
  | .empty => "cannot parse integer from empty string"
  | .invalidDigit => "invalid digit found in string"
  | .tooLarge => "number too large to fit in target type"
  | .tooSmall => "number too small to fit in target type"

/-- Reads digits behind those of `value`, with `beyond` as soon as the value exceeds `limit`. -/
def readDigits (limit : Nat) (beyond : IntegerFault) (value : Nat) :
    List Char → Except IntegerFault Nat
  | [] => .ok value
  | c :: rest =>
    match decimalValue? c with
    | none => .error .invalidDigit
    | some d =>
      if 10 * value + d ≤ limit then readDigits limit beyond (10 * value + d) rest
      else .error beyond

def readMagnitude (limit : Nat) (beyond : IntegerFault) (digits : List Char) :
    Except IntegerFault Nat :=
  if digits.isEmpty then .error .invalidDigit else readDigits limit beyond 0 digits

def parseNat (greatest : Nat) : List Char → Except IntegerFault Nat
  | [] => .error .empty
  | '+' :: digits => readMagnitude greatest .tooLarge digits
  | digits => readMagnitude greatest .tooLarge digits

def parseInt (depth greatest : Nat) : List Char → Except IntegerFault Int
  | '-' :: digits => (readMagnitude depth .tooSmall digits).map fun n => -(n : Int)
  | text => (parseNat greatest text).map Int.ofNat

end TokenRing.Text
