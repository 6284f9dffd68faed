import TokenRing.Ring.Walk
import TokenRing.SortedMap

/-!
# Replica maps

For every token of a ring the nodes that hold its data, the first one first.
-/

namespace TokenRing

/-- A value for every token of the ring, made from the token's index. -/
def Ring.tabulate {τ α : Type} [Token τ] (ring : Ring τ) (f : Nat → α) : SortedMap τ α where
  entries := ring.tokens.zipIdx.map fun (t, i) => (t, f i)
  ascending := by
    have h : (ring.tokens.zipIdx.map (·.1)).Pairwise (· < ·) := by
      rw [List.zipIdx_map_fst]
      exact List.pairwise_map.2 ring.ascending
    exact List.pairwise_map.2 (List.pairwise_map.1 h)

abbrev ReplicaMap (τ : Type) [Token τ] := SortedMap τ (List Node)

namespace ReplicaMap

variable {τ : Type} [Token τ]

/-- The replicas of any token: those of the first token of the map from it on, or of the first
one of all where there is none. -/
def replicasFor? (m : ReplicaMap τ) (t : τ) : Option (List Node) :=
  ((m.entries.find? fun e => t ≤ e.1) <|> m.entries.head?).map (·.2)

def replicaIds (m : ReplicaMap τ) (t : τ) : List NodeId :=
  ((m.get? t).getD []).map (·.id)

end ReplicaMap

end TokenRing
