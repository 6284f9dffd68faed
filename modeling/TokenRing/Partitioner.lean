import TokenRing.TokenSpace

/-!
# Partitioners

A partitioner fixes the token space of a ring: which tokens there are, how a key is hashed to
one, and how tokens are read.
-/

namespace TokenRing

inductive Partitioner where
  | murmur3
  | random
  | byteOrdered
  deriving DecidableEq, Repr

namespace Partitioner

def Token : Partitioner → Type
  | murmur3 => Murmur3Token
  | random => RandomToken
  | byteOrdered => ByteToken

instance : (p : Partitioner) → TokenRing.Token p.Token
  | murmur3 => inferInstanceAs (TokenRing.Token Murmur3Token)
  | random => inferInstanceAs (TokenRing.Token RandomToken)
  | byteOrdered => inferInstanceAs (TokenRing.Token ByteToken)

def name : Partitioner → String
  | murmur3 => "Murmur3Partitioner"
  | random => "RandomPartitioner"
  | byteOrdered => "ByteOrderedPartitioner"

def ofKey : (p : Partitioner) → (key : List UInt8) → p.Token
  | murmur3 => Murmur3Token.ofKey
  | random => RandomToken.ofKey
  | byteOrdered => ByteToken.ofKey

def read : (p : Partitioner) → (text : String) → Except TokenFault p.Token
  | murmur3 => Murmur3Token.parse
  | random => RandomToken.parse
  | byteOrdered => ByteToken.parse

end Partitioner

structure InvalidToken where
  partitioner : Partitioner
  text : String
  fault : TokenFault
  deriving DecidableEq, Repr

/-- The wording of the error. It shows the text as it was given. -/
def InvalidToken.message (e : InvalidToken) : String :=
  s!"Invalid token '{e.text}' for {e.partitioner.name}: {e.fault.message}"

namespace Partitioner

def parse (p : Partitioner) (text : String) : Except InvalidToken p.Token :=
  (p.read text).mapError (⟨p, text, ·⟩)

def parseAll (p : Partitioner) (texts : List String) : Except InvalidToken (List p.Token) :=
  texts.mapM p.parse

end Partitioner

end TokenRing
