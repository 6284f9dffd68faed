import TokenRing.Hash.Md5
import TokenRing.Hash.Murmur3
import TokenRing.Text.Blank
import TokenRing.Text.Decimal
import TokenRing.Text.Quoted
import TokenRing.Text.Utf8
import TokenRing.Token

/-!
# Token spaces

The three kinds of token: signed 64-bit integers, natural numbers up to 2^127, and byte strings.
Each says how a key is hashed to a token and how a token is read from a text. Blanks around the
text are ignored.
-/

namespace TokenRing

inductive TokenFault where
  | integer (fault : Text.IntegerFault)
  /-- The number is an integer of 128 bits, but beyond the last token. -/
  | beyondLast
  | hex (fault : Text.HexFault)
  deriving DecidableEq, Repr

def TokenFault.message : TokenFault → String
  | .integer fault => fault.message
  | .beyondLast => "exceeds 2^127"
  | .hex .oddLength => "Odd number of digits"
  | .hex (.invalidDigit found position) =>
    s!"Invalid character {String.ofList (Text.quotedChar found)} at position {position}"

/-! ### Signed 64-bit tokens -/

structure Murmur3Token where
  value : Int64
  deriving DecidableEq, Repr

namespace Murmur3Token

instance : Token Murmur3Token where
  le a b := a.value ≤ b.value
  lt a b := a.value < b.value
  le_refl a := Std.le_refl a.value
  le_trans _ _ _ := Std.le_trans (α := Int64)
  le_antisymm := fun ⟨_⟩ ⟨_⟩ h h' => congrArg mk (Std.le_antisymm h h')
  le_total a b := Std.le_total (a := a.value) (b := b.value)
  lt_iff a b := Std.LawfulOrderLT.lt_iff a.value b.value
  decidableEq := inferInstance
  decidableLE a b := inferInstanceAs (Decidable (a.value ≤ b.value))
  decidableLT a b := inferInstanceAs (Decidable (a.value < b.value))
  least := ⟨Int64.minValue⟩
  least_le t := Int64.minValue_le t.value
  text t := String.ofList (Text.signedDecimal t.value.toInt)

/-- The token of a key: the first half of its hash. The least token belongs to no key, the last
one stands in for it. -/
def ofKey (key : List UInt8) : Murmur3Token :=
  let half := (Hash.Murmur3.hash key).low.toInt64
  if half = Int64.minValue then ⟨Int64.maxValue⟩ else ⟨half⟩

def parse (text : String) : Except TokenFault Murmur3Token :=
  match Text.parseInt 0x8000000000000000 0x7fffffffffffffff (Text.trim text.toList) with
  | .ok n => .ok ⟨Int64.ofInt n⟩
  | .error fault => .error (.integer fault)

theorem ofKey_ne_least (key : List UInt8) : ofKey key ≠ Token.least := by
  unfold ofKey
  dsimp only
  split
  · intro h; exact absurd (congrArg value h) (by decide)
  · next ne => intro h; exact ne (congrArg value h)

end Murmur3Token

/-! ### Tokens up to 2^127 -/

structure RandomToken where
  value : Nat
  value_le : value ≤ 0x80000000000000000000000000000000
  deriving DecidableEq, Repr

namespace RandomToken

instance : Token RandomToken where
  le a b := a.value ≤ b.value
  lt a b := a.value < b.value
  le_refl a := Nat.le_refl a.value
  le_trans _ _ _ := Nat.le_trans
  le_antisymm := fun ⟨_, _⟩ ⟨_, _⟩ h h' => by congr; exact Nat.le_antisymm h h'
  le_total a b := Nat.le_total a.value b.value
  lt_iff a b := Std.LawfulOrderLT.lt_iff a.value b.value
  decidableEq := inferInstance
  decidableLE a b := inferInstanceAs (Decidable (a.value ≤ b.value))
  decidableLT a b := inferInstanceAs (Decidable (a.value < b.value))
  least := ⟨0, by decide⟩
  least_le t := Nat.zero_le t.value
  text t := String.ofList (Text.decimal t.value)

/-- The token of a key: its digest as a signed integer of 128 bits, without the sign. -/
def ofKey (key : List UInt8) : RandomToken :=
  let n := Hash.bigEndian (Hash.Md5.digest key)
  if h : n ≤ 0x80000000000000000000000000000000 then ⟨n, h⟩
  else ⟨0x100000000000000000000000000000000 - n, by omega⟩

def parse (text : String) : Except TokenFault RandomToken :=
  match Text.parseNat 0xffffffffffffffffffffffffffffffff (Text.trim text.toList) with
  | .ok n =>
    if h : n ≤ 0x80000000000000000000000000000000 then .ok ⟨n, h⟩ else .error .beyondLast
  | .error fault => .error (.integer fault)

end RandomToken

/-! ### Byte strings -/

/-- A string of bytes, in lexicographic order. -/
structure ByteToken where
  bytes : List UInt8
  deriving DecidableEq, Repr

namespace ByteToken

instance : Token ByteToken where
  le a b := a.bytes ≤ b.bytes
  lt a b := a.bytes < b.bytes
  le_refl a := Std.le_refl a.bytes
  le_trans _ _ _ := Std.le_trans (α := List UInt8)
  le_antisymm := fun ⟨_⟩ ⟨_⟩ h h' => congrArg mk (Std.le_antisymm h h')
  le_total a b := Std.le_total (a := a.bytes) (b := b.bytes)
  lt_iff a b := Std.LawfulOrderLT.lt_iff a.bytes b.bytes
  decidableEq := inferInstance
  decidableLE a b := inferInstanceAs (Decidable (a.bytes ≤ b.bytes))
  decidableLT a b := inferInstanceAs (Decidable (a.bytes < b.bytes))
  least := ⟨[]⟩
  least_le t := List.nil_le t.bytes
  text t := String.ofList ('0' :: 'x' :: Text.hexBytes t.bytes)

def ofKey (key : List UInt8) : ByteToken :=
  ⟨key⟩

def stripMark : List Char → List Char
  | '0' :: 'x' :: digits => digits
  | '0' :: 'X' :: digits => digits
  | digits => digits

def parse (text : String) : Except TokenFault ByteToken :=
  match Text.parseHexBytes (Text.utf8 (stripMark (Text.trim text.toList))) with
  | .ok bytes => .ok ⟨bytes⟩
  | .error fault => .error (.hex fault)

end ByteToken

end TokenRing
