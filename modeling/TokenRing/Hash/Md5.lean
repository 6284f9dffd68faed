import TokenRing.Hash.Blocks

/-!
# The MD5 digest

A message is padded to full blocks of 64 bytes, and each block turns four words of 32 bits in 64
rounds.
-/

namespace TokenRing.Hash.Md5

/-- The constant of each round: the fraction bits of a sine. -/
def constants : Array UInt32 :=
  #[0xd76aa478, 0xe8c7b756, 0x242070db, 0xc1bdceee, 0xf57c0faf, 0x4787c62a, 0xa8304613,
    0xfd469501, 0x698098d8, 0x8b44f7af, 0xffff5bb1, 0x895cd7be, 0x6b901122, 0xfd987193,
    0xa679438e, 0x49b40821, 0xf61e2562, 0xc040b340, 0x265e5a51, 0xe9b6c7aa, 0xd62f105d,
    0x02441453, 0xd8a1e681, 0xe7d3fbc8, 0x21e1cde6, 0xc33707d6, 0xf4d50d87, 0x455a14ed,
    0xa9e3e905, 0xfcefa3f8, 0x676f02d9, 0x8d2a4c8a, 0xfffa3942, 0x8771f681, 0x6d9d6122,
    0xfde5380c, 0xa4beea44, 0x4bdecfa9, 0xf6bb4b60, 0xbebfbc70, 0x289b7ec6, 0xeaa127fa,
    0xd4ef3085, 0x04881d05, 0xd9d4d039, 0xe6db99e5, 0x1fa27cf8, 0xc4ac5665, 0xf4292244,
    0x432aff97, 0xab9423a7, 0xfc93a039, 0x655b59c3, 0x8f0ccc92, 0xffeff47d, 0x85845dd1,
    0x6fa87e4f, 0xfe2ce6e0, 0xa3014314, 0x4e0811a1, 0xf7537e82, 0xbd3af235, 0x2ad7d2bb,
    0xeb86d391]

/-- How far each round rotates: a cycle of four in every sixteen rounds. -/
def shifts : Array UInt32 :=
  #[7, 12, 17, 22, 5, 9, 14, 20, 4, 11, 16, 23, 6, 10, 15, 21]

structure State where
  a : UInt32
  b : UInt32
  c : UInt32
  d : UInt32

def State.start : State :=
  ⟨0x67452301, 0xefcdab89, 0x98badcfe, 0x10325476⟩

private def rotate (x : UInt32) (count : UInt32) : UInt32 :=
  (x <<< count) ||| (x >>> (32 - count))

def State.select (s : State) (round : Nat) : UInt32 :=
  if round < 16 then (s.b &&& s.c) ||| (~~~s.b &&& s.d)
  else if round < 32 then (s.d &&& s.b) ||| (~~~s.d &&& s.c)
  else if round < 48 then s.b ^^^ s.c ^^^ s.d
  else s.c ^^^ (s.b ||| ~~~s.d)

def wordIndex (round : Nat) : Nat :=
  if round < 16 then round
  else if round < 32 then (5 * round + 1) % 16
  else if round < 48 then (3 * round + 5) % 16
  else 7 * round % 16

def State.turn (words : Array UInt32) (s : State) (round : Nat) : State :=
  let sum := s.a + s.select round + constants.getD round 0 + words.getD (wordIndex round) 0
  let shift := shifts.getD (round / 16 * 4 + round % 4) 0
  ⟨s.d, s.b + rotate sum shift, s.b, s.c⟩

def State.absorb (s : State) (block : List UInt8) : State :=
  let words := ((blocks 4 block).map fun b => UInt32.ofNat (littleEndian b)).toArray
  let t := (List.range 64).foldl (State.turn words) s
  ⟨s.a + t.a, s.b + t.b, s.c + t.c, s.d + t.d⟩

/-- A message with a one bit, as many zero bits as fill the last block, and its length in bits. -/
def pad (message : List UInt8) : List UInt8 :=
  let zeros := (119 - message.length % 64) % 64
  message ++ 0x80 :: List.replicate zeros 0 ++ littleEndianBytes 8 (8 * message.length)

def State.bytes (s : State) : List UInt8 :=
  [s.a, s.b, s.c, s.d].flatMap fun word => littleEndianBytes 4 word.toNat

def digest (message : List UInt8) : List UInt8 :=
  ((blocks 64 (pad message)).foldl State.absorb State.start).bytes

theorem length_digest (message : List UInt8) : (digest message).length = 16 := by
  rfl

end TokenRing.Hash.Md5
