import TokenRing.Token

/-!
# Token ranges

The tokens behind a start up to and including a stop, clockwise. A range may pass the greatest
token and go on from the least; the range from a token to itself is the whole ring.
-/

namespace TokenRing

/-- The tokens in `(start, stop]`, clockwise. -/
structure TokenRange (τ : Type) where
  start : τ
  stop : τ
  deriving DecidableEq, Repr

namespace TokenRange

variable {τ : Type} [Token τ]

def isFull (r : TokenRange τ) : Bool :=
  r.start = r.stop

def wraps (r : TokenRange τ) : Bool :=
  r.stop < r.start

def contains (r : TokenRange τ) (t : τ) : Bool :=
  if r.isFull then true
  else if r.wraps then r.start < t || t ≤ r.stop
  else r.start < t && t ≤ r.stop

theorem contains_iff {r : TokenRange τ} {t : τ} :
    r.contains t = true ↔ r.start = r.stop ∨
      r.stop < r.start ∧ (r.start < t ∨ t ≤ r.stop) ∨
      r.start < r.stop ∧ r.start < t ∧ t ≤ r.stop := by
  unfold contains isFull wraps
  by_cases hfull : r.start = r.stop
  · simp [hfull]
  by_cases hwraps : r.stop < r.start
  · have hlt : ¬ r.start < r.stop := fun h => Std.lt_irrefl (Std.lt_trans h hwraps)
    simp [hfull, hwraps, hlt]
  · have hlt : r.start < r.stop := by grind
    simp [hfull, hwraps, hlt]

def text (r : TokenRange τ) : String :=
  s!"({Token.text r.start}, {Token.text r.stop}]"

end TokenRange

end TokenRing
