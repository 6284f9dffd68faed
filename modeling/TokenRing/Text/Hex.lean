/-!
# Hexadecimal

Numbers with a fixed count of hexadecimal digits, and bytes as pairs of digits. Digits are written
in lower case and read in either case.
-/

namespace TokenRing.Text

def hexDigit (d : Nat) : Char :=
  if d < 10 then Char.ofNat ('0'.toNat + d) else Char.ofNat ('a'.toNat + (d - 10))

def hexValue? (c : Char) : Option Nat :=
  if '0' ≤ c ∧ c ≤ '9' then some (c.toNat - '0'.toNat)
  else if 'a' ≤ c ∧ c ≤ 'f' then some (c.toNat - 'a'.toNat + 10)
  else if 'A' ≤ c ∧ c ≤ 'F' then some (c.toNat - 'A'.toNat + 10)
  else none

/-- The last `width` hexadecimal digits of a number, with leading zeros. -/
def hexFixed : (width : Nat) → (n : Nat) → List Char
  | 0, _ => []
  | width + 1, n => hexFixed width (n / 16) ++ [hexDigit (n % 16)]

def hex (n : Nat) : List Char :=
  if n < 16 then [hexDigit n] else hex (n / 16) ++ [hexDigit (n % 16)]
termination_by n
decreasing_by omega

def readHex? (value : Nat) : List Char → Option Nat
  | [] => some value
  | c :: rest => do readHex? (16 * value + (← hexValue? c)) rest

def hexBytes (bytes : List UInt8) : List Char :=
  bytes.flatMap fun b => [hexDigit (b.toNat / 16), hexDigit (b.toNat % 16)]

inductive HexFault where
  /-- The last digit has no partner. -/
  | oddLength
  /-- The byte at a position, shown as the character of the same number, is no digit. -/
  | invalidDigit (found : Char) (position : Nat)
  deriving DecidableEq, Repr

def byteChar (b : UInt8) : Char :=
  Char.ofNat b.toNat

def readHexByte (position : Nat) (b : UInt8) : Except HexFault Nat :=
  match hexValue? (byteChar b) with
  | some d => .ok d
  | none => .error (.invalidDigit (byteChar b) position)

def readHexPairs (position : Nat) : List UInt8 → Except HexFault (List UInt8)
  | [] => .ok []
  | [_] => .error .oddLength
  | a :: b :: rest => do
    let high ← readHexByte position a
    let low ← readHexByte (position + 1) b
    let bytes ← readHexPairs (position + 2) rest
    return UInt8.ofNat (16 * high + low) :: bytes

/-- Reads bytes written as pairs of digits. An odd count is reported before any bad digit. -/
def parseHexBytes (digits : List UInt8) : Except HexFault (List UInt8) :=
  if digits.length % 2 = 1 then .error .oddLength else readHexPairs 0 digits

end TokenRing.Text
