import TokenRing.Proofs.Placement.Replicas

/-!
# Rings in a single datacenter

On a ring in a single datacenter the network topology strategy prefers no node to another if there
is one rack only, or if every rack has one node only. Then it places what the simple strategy does.
-/

namespace TokenRing

variable {τ : Type} [Token τ]

namespace Ring

variable {ring : Ring τ} {dc : String}

theorem within_nodesFrom_eq_self (hdc : ∀ n ∈ ring.owners, n.datacenter = some dc) (index : Nat) :
    Node.within dc (ring.nodesFrom index) = ring.nodesFrom index :=
  Node.within_eq_self fun n hn => hdc n (ring.nodesFrom_subset index hn)

theorem within_selectionFrom_eq_self (hdc : ∀ n ∈ ring.owners, n.datacenter = some dc)
    (factors : SortedMap String Factor) (index : Nat) :
    Node.within dc (ring.selectionFrom factors index).replicas =
      (ring.selectionFrom factors index).replicas :=
  Node.within_eq_self fun n hn =>
    hdc n (ring.nodesFrom_subset index (ring.selectionFrom_subset factors index hn))

/-- In a single datacenter the first nodes in rack order are chosen. -/
theorem selectionFrom_eq_take (hdc : ∀ n ∈ ring.owners, n.datacenter = some dc)
    (factors : SortedMap String Factor) (index : Nat) :
    (ring.selectionFrom factors index).replicas =
      (Node.rackOrder (ring.nodesFrom index)).take (Strategy.fullReplicasIn factors dc) := by
  rw [← within_selectionFrom_eq_self hdc, within_selectionFrom, within_nodesFrom_eq_self hdc]

/-- With one rack, or racks that no two nodes share, the rack order is the order of the walk. -/
theorem rackOrder_nodesFrom (hdc : ∀ n ∈ ring.owners, n.datacenter = some dc)
    (hracks : (ring.racksIn dc).length ≤ 1 ∨
      ∀ a ∈ ring.owners, ∀ b ∈ ring.owners, a.rack.isSome → a.rack = b.rack → a.id = b.id)
    (index : Nat) : Node.rackOrder (ring.nodesFrom index) = ring.nodesFrom index := by
  rcases hracks with hone | hown
  · apply Node.rackOrder_of_one_rack
    rw [← within_nodesFrom_eq_self hdc, length_racks_within_nodesFrom]
    exact hone
  · apply Node.rackOrder_of_own_racks
    intro a ha b hb hrack hsame
    have ha := ring.nodesFrom_subset index ha
    have hb := ring.nodesFrom_subset index hb
    exact ring.oneRecord_owners b hb a ha (hown a ha b hb hrack hsame.symm).symm

end Ring

theorem Strategy.fullReplicasIn_single (dc : String) (factor : Factor) :
    fullReplicasIn (.ofList [(dc, factor)]) dc = factor.full := by
  have hget : (SortedMap.ofList [(dc, factor)]).get? dc = some factor := by
    rw [SortedMap.ofList, List.foldl_cons, List.foldl_nil, SortedMap.get?_insert, if_pos rfl]
  rw [fullReplicasIn, hget, Option.map_some, Option.getD_some]

/-- On a ring in one datacenter that has at most one rack, or on which no two nodes share a rack, the
network topology strategy gives every token the same list as the simple strategy. -/
theorem networkTopology_eq_simple {ring : Ring τ} {dc : String} {factor : Factor}
    (hdc : ∀ n ∈ ring.owners, n.datacenter = some dc)
    (hracks : (ring.racksIn dc).length ≤ 1 ∨
      ∀ a ∈ ring.owners, ∀ b ∈ ring.owners, a.rack.isSome → a.rack = b.rack → a.id = b.id)
    (full_pos : 0 < factor.full) {t : τ} (ht : t ∈ ring.tokens) :
    ∃ replicas,
      ((Strategy.ofDatacenters [(dc, factor)]).place ring).replicas.get? t = some replicas ∧
      ((Strategy.simple factor full_pos).place ring).replicas.get? t = some replicas := by
  obtain ⟨e, he, rfl⟩ := List.mem_map.1 ht
  obtain ⟨i, hi, rfl⟩ := Array.getElem_of_mem (Array.mem_toList_iff.1 he)
  refine ⟨(ring.nodesFrom i).take factor.full, ?_, ?_⟩
  · rw [Strategy.get?_replicas_place _ ring hi]
    change some (ring.selectionFrom (.ofList [(dc, factor)]) i).replicas = _
    rw [Ring.selectionFrom_eq_take hdc, Ring.rackOrder_nodesFrom hdc hracks,
      Strategy.fullReplicasIn_single]
  · rw [Strategy.get?_replicas_place _ ring hi, Strategy.replicasFrom_simple]

/-- Every node with a rack has it for itself. The first node has a second token in between. -/
def eastRing : Ring Murmur3Token where
  entries := #[(⟨-7⟩, .sample 1 "east" "r1"), (⟨-3⟩, .sample 2 "east" "r2"),
    (⟨0⟩, .sample 1 "east" "r1"), (⟨2⟩, .sample 3 "east" none), (⟨5⟩, .sample 4 "east" "r3")]
  ascending := by decide
  one_record := by decide

/-- Nodes without a rack may be among those with racks of their own. -/
theorem networkTopology_eq_simple_eastRing :
    ∃ (full_pos : 0 < Factor.full (.ofNat 4)) (replicas : List Node),
      ((Strategy.ofDatacenters [("east", .ofNat 4)]).place eastRing).replicas.get? ⟨-3⟩ =
        some replicas ∧
      ((Strategy.simple (.ofNat 4) full_pos).place eastRing).replicas.get? ⟨-3⟩ = some replicas := by
  have hpos : 0 < Factor.full (.ofNat 4) := by decide
  have hdc : ∀ n ∈ eastRing.owners, n.datacenter = some "east" := by decide
  have hown : ∀ a ∈ eastRing.owners, ∀ b ∈ eastRing.owners,
      a.rack.isSome → a.rack = b.rack → a.id = b.id := by decide
  exact ⟨hpos, networkTopology_eq_simple hdc (.inr hown) hpos (by decide)⟩

end TokenRing
