import TokenRing.Proofs.Placement.NetworkTopology
import TokenRing.Proofs.Ring.Ranges

/-!
# Finding the replicas of a token

Every strategy chooses the replicas of a token of the ring from its index alone. So the replica map
finds for any token the replicas of the one that it belongs to on the ring.
-/

namespace TokenRing

variable {τ : Type} [Token τ]

namespace Strategy

def replicasFrom (strategy : Strategy) (ring : Ring τ) (index : Nat) : List Node :=
  match strategy with
  | localOnly => (ring.ownerAt? index).toList
  | simple factor _ => takeDistinct (min factor.full ring.size) [] (ring.ownersFrom index)
  | networkTopology factors => (ring.selectionFrom factors index).replicas
  | everywhere => ring.nodes

/-- The replica map has the choice of the strategy for every index. -/
theorem replicas_eq_tabulate (strategy : Strategy) (ring : Ring τ) :
    (strategy.place ring).replicas = ring.tabulate (strategy.replicasFrom ring) := by
  cases strategy with
  | localOnly => rfl
  | simple factor full_pos => rfl
  | networkTopology factors => exact ring.replicas_place factors
  | everywhere => rfl

/-- Any token has the replicas of the token of the ring that it belongs to. -/
theorem replicasFor?_place (strategy : Strategy) (ring : Ring τ) (t : τ) :
    (strategy.place ring).replicas.replicasFor? t =
      (ring.ownerIndex? t).map (strategy.replicasFrom ring) := by
  rw [replicas_eq_tabulate, ReplicaMap.replicasFor?_tabulate]

/-- The replica map has the tokens of the ring as its keys, in order. -/
theorem keys_place (strategy : Strategy) (ring : Ring τ) :
    (strategy.place ring).replicas.keys = ring.tokens := by
  rw [replicas_eq_tabulate, Ring.keys_tabulate]

theorem getElem?_entries_place (strategy : Strategy) (ring : Ring τ) {i : Nat}
    (hi : i < ring.entries.size) :
    (strategy.place ring).replicas.entries[i]? =
      some (ring.entries[i].1, strategy.replicasFrom ring i) := by
  rw [replicas_eq_tabulate, List.getElem?_eq_some_iff]
  have hlt : i < (ring.tabulate (strategy.replicasFrom ring)).entries.length := by
    rw [Ring.length_entries_tabulate]
    exact hi
  exact ⟨hlt, ring.getElem_entries_tabulate _ hi hlt⟩

theorem get?_replicas_place (strategy : Strategy) (ring : Ring τ) {i : Nat}
    (hi : i < ring.entries.size) :
    (strategy.place ring).replicas.get? ring.entries[i].1 =
      some (strategy.replicasFrom ring i) := by
  rw [replicas_eq_tabulate, ring.get?_tabulate _ hi]

end Strategy

/-- The replica map finds nothing for a token if and only if the ring is empty, and otherwise the
replicas of the token of the ring in whose range it is. -/
theorem replicas_of_range (strategy : Strategy) (ring : Ring τ) (t : τ) :
    ((strategy.place ring).replicas.replicasFor? t = none ↔ ring.isEmpty = true) ∧
    (ring.isEmpty = false → ∃ i token owner range replicas,
      ring.ownerIndex? t = some i ∧ ring.tokenAt? i = some token ∧
      ring.ranges[i]? = some (range, owner) ∧ range.stop = token ∧ range.contains t = true ∧
      (strategy.place ring).replicas.get? token = some replicas ∧
      (strategy.place ring).replicas.replicasFor? t = some replicas) := by
  rw [strategy.replicasFor?_place]
  constructor
  · cases hempty : ring.isEmpty with
    | true => simp [Ring.ownerIndex?, hempty]
    | false => simp [ring.ownerIndex?_of_not_isEmpty hempty]
  · intro hempty
    obtain ⟨i, hindex, hi⟩ := ring.exists_ownerIndex? t hempty
    refine ⟨i, ring.entries[i].1, ring.entries[i].2, ring.rangeAt i hi,
      strategy.replicasFrom ring i, hindex, ring.tokenAt?_of_lt hi,
      ring.getElem?_ranges_eq_some_iff.2 ⟨hi, rfl⟩, rfl,
      (ring.contains_rangeAt_iff hi).2 hindex, strategy.get?_replicas_place ring hi, ?_⟩
    rw [hindex, Option.map_some]

/-- The token is behind the last one of the ring, so it belongs to the first one. -/
theorem replicas_of_range_sampleRing :
    ∃ replicas,
      ((Strategy.networkTopology sampleFactors).place sampleRing).replicas.get? ⟨-7⟩ =
        some replicas ∧
      ((Strategy.networkTopology sampleFactors).place sampleRing).replicas.replicasFor? ⟨9⟩ =
        some replicas := by
  obtain ⟨i, token, owner, range, replicas, hindex, htoken, -, -, -, hget, hfor⟩ :=
    (replicas_of_range (.networkTopology sampleFactors) sampleRing ⟨9⟩).2 (by decide)
  have hfirst : sampleRing.ownerIndex? ⟨9⟩ = some 0 :=
    (sampleRing.contains_rangeAt_iff (by decide)).1 (by decide)
  rw [hindex, Option.some.injEq] at hfirst
  subst hfirst
  obtain rfl : ⟨-7⟩ = token := Option.some.inj htoken
  exact ⟨replicas, hget, hfor⟩

end TokenRing
