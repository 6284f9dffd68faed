import TokenRing.Ring.Basic

/-!
# Walks

A walk goes once around the ring, clockwise, from the entry at some index.
-/

namespace TokenRing

structure Ring.Walk {τ : Type} [Token τ] (ring : Ring τ) where
  start : Nat
  taken : Nat
  taken_le : taken ≤ ring.size

namespace Ring

variable {τ : Type} [Token τ] {ring : Ring τ}

def walkFrom (ring : Ring τ) (index : Nat) : Walk ring :=
  ⟨index % ring.size, 0, Nat.zero_le _⟩

namespace Walk

def remaining (walk : Walk ring) : Nat :=
  ring.size - walk.taken

def next? (walk : Walk ring) : Option ((τ × Node) × Walk ring) :=
  if h : walk.taken < ring.size then
    have bound : (walk.start + walk.taken) % ring.size < ring.entries.size :=
      Nat.mod_lt _ (by omega)
    some (ring.entries[(walk.start + walk.taken) % ring.size],
      { walk with taken := walk.taken + 1, taken_le := h })
  else none

/-- Each step takes one entry, so the walk ends. -/
theorem remaining_of_next? {walk walk' : Walk ring} {entry : τ × Node}
    (h : walk.next? = some (entry, walk')) : walk'.remaining + 1 = walk.remaining := by
  unfold next? at h
  split at h
  · cases h; unfold remaining; dsimp only; omega
  · cases h

def toList (walk : Walk ring) : List (τ × Node) :=
  match _h : walk.next? with
  | some (entry, walk') => entry :: walk'.toList
  | none => []
termination_by walk.remaining
decreasing_by have := remaining_of_next? _h; omega

def take (walk : Walk ring) : (count : Nat) → List (τ × Node) × Walk ring
  | 0 => ([], walk)
  | count + 1 =>
    match walk.next? with
    | some (entry, walk') =>
      let (entries, rest) := walk'.take count
      (entry :: entries, rest)
    | none => ([], walk)

end Walk

def ownersFrom (ring : Ring τ) (index : Nat) : List Node :=
  (ring.walkFrom index).toList.map (·.2)

end Ring

end TokenRing
