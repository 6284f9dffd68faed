import TokenRing.Hash.Blocks

/-!
# The 128-bit Murmur3 hash

The variant for 64-bit machines with seed zero, of which the first half is used. The bytes that
fill no block enter with their sign: a byte from 128 on sets every bit above its own.
-/

namespace TokenRing.Hash.Murmur3

private def rotate (x : UInt64) (count : UInt64) : UInt64 :=
  (x <<< count) ||| (x >>> (64 - count))

structure State where
  low : UInt64
  high : UInt64

def scrambleLow (k : UInt64) : UInt64 :=
  rotate (k * 0x87c37b91114253d5) 31 * 0x4cf5ad432745937f

def scrambleHigh (k : UInt64) : UInt64 :=
  rotate (k * 0x4cf5ad432745937f) 33 * 0x87c37b91114253d5

def State.absorb (s : State) (block : List UInt8) : State :=
  let k₁ := UInt64.ofNat (littleEndian (block.take 8))
  let k₂ := UInt64.ofNat (littleEndian (block.drop 8))
  let low := (rotate (s.low ^^^ scrambleLow k₁) 27 + s.high) * 5 + 0x52dce729
  let high := (rotate (s.high ^^^ scrambleHigh k₂) 31 + low) * 5 + 0x38495ab5
  ⟨low, high⟩

/-- The word of at most eight bytes, each extended by its sign before it is put in its place. -/
def signedWord (bytes : List UInt8) : UInt64 :=
  bytes.zipIdx.foldl
    (fun k (b, i) => k ^^^ (b.toInt8.toInt64.toUInt64 <<< UInt64.ofNat (8 * i))) 0

def State.absorbTail (s : State) (bytes : List UInt8) : State where
  low := s.low ^^^ scrambleLow (signedWord (bytes.take 8))
  high := s.high ^^^ scrambleHigh (signedWord (bytes.drop 8))

def mix (k : UInt64) : UInt64 :=
  let k := (k ^^^ (k >>> 33)) * 0xff51afd7ed558ccd
  let k := (k ^^^ (k >>> 33)) * 0xc4ceb9fe1a85ec53
  k ^^^ (k >>> 33)

def State.finish (s : State) (length : Nat) : State :=
  let low := s.low ^^^ UInt64.ofNat length
  let high := s.high ^^^ UInt64.ofNat length
  let low := low + high
  let high := high + low
  let low := mix low
  let high := mix high
  ⟨low + high, high + (low + high)⟩

def hash (message : List UInt8) : State :=
  (((blocks 16 message).foldl State.absorb ⟨0, 0⟩).absorbTail (tail 16 message)).finish
    message.length

end TokenRing.Hash.Murmur3
