/-!
# Blocks of bytes

A message cut into blocks of one size, and words read from their bytes. Both hashes read words
with the least significant byte first.
-/

namespace TokenRing.Hash

/-- The full blocks at the start of a message. What fills no block is left out. -/
def blocks (size : Nat) (message : List UInt8) : List (List UInt8) :=
  if 0 < size ∧ size ≤ message.length then
    message.take size :: blocks size (message.drop size)
  else []
termination_by message.length
decreasing_by simp; omega

def tail (size : Nat) (message : List UInt8) : List UInt8 :=
  message.drop (message.length / size * size)

def littleEndian (bytes : List UInt8) : Nat :=
  bytes.foldr (fun b n => b.toNat + 256 * n) 0

def bigEndian (bytes : List UInt8) : Nat :=
  bytes.foldl (fun n b => 256 * n + b.toNat) 0

def littleEndianBytes : (count : Nat) → (n : Nat) → List UInt8
  | 0, _ => []
  | count + 1, n => UInt8.ofNat n :: littleEndianBytes count (n / 256)

end TokenRing.Hash
