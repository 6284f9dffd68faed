/-!
# Tokens

A token is a position on the ring. Any linearly ordered type with a least element and a written
form can serve as tokens.
-/

namespace TokenRing

class Token (τ : Type) extends LE τ, LT τ, Std.IsLinearOrder τ, Std.LawfulOrderLT τ where
  decidableEq : DecidableEq τ
  decidableLE : DecidableLE τ
  decidableLT : DecidableLT τ
  /-- The position before which there is none. -/
  least : τ
  least_le : ∀ t, least ≤ t
  /-- The written form of a position. -/
  text : τ → String

namespace Token

variable {τ : Type} [Token τ]

instance : DecidableEq τ := decidableEq

instance : DecidableLE τ := decidableLE

instance : DecidableLT τ := decidableLT

def isLeast (t : τ) : Bool :=
  t = least

def sort (tokens : List τ) : List τ :=
  tokens.mergeSort fun a b => a ≤ b

end Token

end TokenRing
