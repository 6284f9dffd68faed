import TokenRing.Placement
import TokenRing.Proofs.Placement.Selection
import TokenRing.Proofs.ReplicaMap
import TokenRing.TokenSpace

/-!
# Network topology placement

The replicas of every token of a ring are known in closed form: of each datacenter the first nodes
in rack order on the walk from the token, as many as its factor asks for. So every datacenter gets
what it can get, on as many racks as possible, and does not depend on the others.
-/

namespace TokenRing

open Node

namespace Ring

variable {τ : Type} [Token τ] (ring : Ring τ) (factors : SortedMap String Factor)

/-- The nodes that are met on a walk from an index, each once. -/
def nodesFrom (index : Nat) : List Node :=
  Node.distinct (ring.ownersFrom index)

def selectionFrom (index : Nat) : Selection :=
  (Selection.start (ring.quotas factors)).offerAll (ring.ownersFrom index)

/-- Every walk meets all nodes of a datacenter. -/
theorem within_nodesFrom_perm (dc : String) (index : Nat) :
    (within dc (ring.nodesFrom index)).Perm (ring.nodesIn dc) :=
  (ring.distinct_ownersFrom_perm index).filter _

theorem length_racks_within_nodesFrom (dc : String) (index : Nat) :
    (racks (within dc (ring.nodesFrom index))).length = (ring.racksIn dc).length :=
  have hperm := ring.within_nodesFrom_perm dc index
  Nat.le_antisymm (length_racks_le hperm.subset) (length_racks_le hperm.symm.subset)

/-- The quota of a datacenter is set up from its factor and the nodes on the ring. -/
theorem get?_quotas (dc : String) (index : Nat) :
    (ring.quotas factors).get? dc = (factors.get? dc).map fun factor =>
      { wanted := factor.full
        target := min factor.full (within dc (ring.nodesFrom index)).length
        racks := (racks (within dc (ring.nodesFrom index))).length } := by
  rw [quotas, SortedMap.get?_mapValues, (ring.within_nodesFrom_perm dc index).length_eq,
    ring.length_racks_within_nodesFrom dc index]

/-- The invariant at the end of a walk. -/
theorem selectionFrom_tracks (index : Nat) :
    ∃ seen, seen <+: ring.nodesFrom index ∧
      (ring.selectionFrom factors index).Tracks factors (ring.nodesFrom index) seen ∧
      (seen = ring.nodesFrom index ∨ (ring.selectionFrom factors index).pending = 0) :=
  Selection.offerAll_tracks (ring.oneRecord_ownersFrom index)
    (Selection.start_tracks fun dc => ring.get?_quotas factors dc index)

/-- In each datacenter the replicas are the first nodes in rack order, as many as the factor
says. -/
theorem within_selectionFrom (dc : String) (index : Nat) :
    within dc (ring.selectionFrom factors index).replicas =
      (rackOrder (within dc (ring.nodesFrom index))).take
        (Strategy.fullReplicasIn factors dc) := by
  rcases ring.selectionFrom_tracks factors index with ⟨seen, hpre, htracks, hend⟩
  unfold Strategy.fullReplicasIn
  cases hfactor : factors.get? dc with
  | none =>
    -- Without a factor there is no quota to take a node.
    rw [Option.map_none, Option.getD_none, List.take_zero]
    refine within_eq_nil fun n hn hdc => ?_
    rcases htracks.configured n hn with ⟨other, hother, hsome⟩
    rw [← Option.some.inj (hdc.symm.trans hother), hfactor] at hsome
    cases hsome
  | some factor =>
    rw [Option.map_some, Option.getD_some]
    exact htracks.within_replicas (nodup_distinct _) hpre hend hfactor

/-- Each token gets what is chosen on the walk from it. -/
theorem replicas_place :
    ((Strategy.networkTopology factors).place ring).replicas =
      ring.tabulate fun i => (ring.selectionFrom factors i).replicas :=
  ring.mapValues_tabulate (ring.selectionFrom factors) Selection.replicas

/-! ### One datacenter -/

def entriesIn (dc : String) : List (τ × Node) :=
  ring.entries.toList.filter (·.2.datacenter = some dc)

/-- On the walk from the owner of a token the nodes of a datacenter depend on its own entries
only. -/
theorem within_nodesFrom_ownerIndex (dc : String) {t : τ} {i : Nat}
    (h : ring.ownerIndex? t = some i) :
    within dc (ring.nodesFrom i) =
      Node.distinct (((ring.entriesIn dc).filter (t ≤ ·.1) ++
        (ring.entriesIn dc).filter (·.1 < t)).map (·.2)) := by
  -- Filtering by the datacenter goes before the walk and before dropping repetitions.
  have hswap (p : τ × Node → Bool) :
      ((ring.entries.toList.filter p).map (·.2)).filter (·.datacenter = some dc) =
        ((ring.entriesIn dc).filter p).map (·.2) := by
    rw [List.filter_map, List.filter_filter, entriesIn, List.filter_filter]
    simp only [Bool.and_comm, Function.comp_def]
  rw [within, nodesFrom, filter_distinct (ring.oneRecord_ownersFrom i), ownersFrom,
    ring.toList_walkFrom_ownerIndex h, List.map_append, List.filter_append, hswap, hswap,
    List.map_append]

/-- Rings with the same entries in a datacenter list them in the same order. -/
theorem entriesIn_eq {ring₁ ring₂ : Ring τ} {dc : String}
    (h : ∀ e : τ × Node, e.2.datacenter = some dc → (e ∈ ring₁.entries ↔ e ∈ ring₂.entries)) :
    ring₁.entriesIn dc = ring₂.entriesIn dc := by
  apply eq_of_ascending (ring₁.ascending.filter _) (ring₂.ascending.filter _)
  intro e
  simp only [List.mem_filter, decide_eq_true_eq, Array.mem_toList_iff]
  exact and_congr_left (h e)

end Ring

variable {τ : Type} [Token τ]

/-! ### Main results -/

/-- The replicas of the token at an index: of every datacenter with a factor the first nodes in rack
order, none of any other, all in the order of the positions at which the walk takes them. -/
theorem replicas_networkTopology (ring : Ring τ) (factors : SortedMap String Factor)
    (i : Fin ring.size) :
    ∃ t replicas, ring.tokenAt? i = some t ∧
      ((Strategy.networkTopology factors).place ring).replicas.get? t = some replicas ∧
      (∀ dc factor, factors.get? dc = some factor →
        within dc replicas = (rackOrder (within dc (ring.nodesFrom i))).take factor.full) ∧
      (∀ n ∈ replicas, ∃ dc, n.datacenter = some dc ∧ (factors.get? dc).isSome) ∧
      replicas.Pairwise (TakenBefore (ring.nodesFrom i)) := by
  rcases ring.selectionFrom_tracks factors i with ⟨_, -, htracks, -⟩
  refine ⟨_, (ring.selectionFrom factors i).replicas, ring.tokenAt?_of_lt i.isLt, ?_, ?_,
    htracks.configured, htracks.ordered⟩
  · rw [ring.replicas_place]
    exact ring.get?_tabulate _ i.isLt
  · intro dc factor hfactor
    rw [ring.within_selectionFrom, Strategy.fullReplicasIn, hfactor, Option.map_some,
      Option.getD_some]

/-- Every datacenter gets as many replicas as its factor asks for or its nodes allow, on as many
racks as possible. -/
theorem quotas_networkTopology (ring : Ring τ) (factors : SortedMap String Factor) {t : τ}
    (ht : t ∈ ring.tokens) :
    ∃ replicas, ((Strategy.networkTopology factors).place ring).replicas.get? t = some replicas ∧
      (∀ dc factor, factors.get? dc = some factor →
        (within dc replicas).length = min factor.full (ring.nodesIn dc).length ∧
        (racks (within dc replicas)).length =
          min ((within dc replicas).countP (·.rack.isSome)) (ring.racksIn dc).length) ∧
      ∀ n ∈ replicas, ∃ dc, n.datacenter = some dc ∧ (factors.get? dc).isSome := by
  rcases List.mem_map.1 ht with ⟨e, he, rfl⟩
  rcases List.getElem_of_mem he with ⟨i, hi, rfl⟩
  rw [Array.length_toList] at hi
  rcases ring.selectionFrom_tracks factors i with ⟨_, -, htracks, -⟩
  refine ⟨(ring.selectionFrom factors i).replicas, ?_, fun dc factor hfactor => ?_,
    htracks.configured⟩
  · rw [ring.replicas_place, Array.getElem_toList]
    exact ring.get?_tabulate _ hi
  · -- Where the walk starts changes the order of the nodes only, not how many there are.
    have hperm := ring.within_nodesFrom_perm dc i
    have hnodup : (within dc (ring.nodesFrom i)).Nodup := (nodup_distinct _).filter _
    rw [ring.within_selectionFrom, Strategy.fullReplicasIn, hfactor, Option.map_some,
      Option.getD_some, length_racks_take_rackOrder hnodup, ring.length_racks_within_nodesFrom,
      List.length_take, (rackOrder_perm _).length_eq, hperm.length_eq]
    exact ⟨rfl, rfl⟩

private def sampleNode (id : Fin 10) (dc rack : Option String) : Node :=
  ⟨⟨id, by omega⟩, "node", dc, rack⟩

/-- Three nodes in the east, one of them with two tokens, and two nodes elsewhere. -/
def sampleRing : Ring Murmur3Token where
  entries := #[
    (⟨-7⟩, sampleNode 1 "east" "r1"), (⟨-3⟩, sampleNode 2 "east" "r1"),
    (⟨0⟩, sampleNode 3 none none), (⟨2⟩, sampleNode 1 "east" "r1"),
    (⟨5⟩, sampleNode 4 "west" none), (⟨8⟩, sampleNode 5 "east" "r2")]
  ascending := by decide
  one_record := by decide

def sampleRing' : Ring Murmur3Token where
  entries := #[
    (⟨-7⟩, sampleNode 1 "east" "r1"), (⟨-3⟩, sampleNode 2 "east" "r1"),
    (⟨2⟩, sampleNode 1 "east" "r1"), (⟨6⟩, sampleNode 6 "west" "r1"),
    (⟨8⟩, sampleNode 5 "east" "r2")]
  ascending := by decide
  one_record := by decide

def sampleFactors : SortedMap String Factor :=
  ⟨[("east", .ofNat 2), ("west", .ofNat 2)], by decide⟩

/-- The east has its two replicas, and the west the one node it has. -/
theorem quotas_sampleRing :
    ∃ replicas,
      ((Strategy.networkTopology sampleFactors).place sampleRing).replicas.get? ⟨0⟩ =
        some replicas ∧
      (within "east" replicas).length = 2 ∧ (within "west" replicas).length = 1 := by
  have hmem : ⟨0⟩ ∈ sampleRing.tokens := by decide
  rcases quotas_networkTopology sampleRing sampleFactors hmem with ⟨replicas, hreplicas, hquota, -⟩
  have heast := (hquota "east" (.ofNat 2) (by decide)).1
  have hwest := (hquota "west" (.ofNat 2) (by decide)).1
  have hnodes : (sampleRing.nodesIn "east").length = 3 := by decide
  have hnodes' : (sampleRing.nodesIn "west").length = 1 := by decide
  rw [hnodes] at heast
  rw [hnodes'] at hwest
  exact ⟨replicas, hreplicas, heast, hwest⟩

/-- The replicas in a datacenter depend on the entries and the factor of this datacenter only. -/
theorem independent_networkTopology {ring₁ ring₂ : Ring τ}
    {factors₁ factors₂ : SortedMap String Factor} {dc : String} (hring₁ : ring₁.isEmpty = false)
    (hring₂ : ring₂.isEmpty = false)
    (hentries : ∀ e : τ × Node, e.2.datacenter = some dc →
      (e ∈ ring₁.entries ↔ e ∈ ring₂.entries))
    (hfactor : factors₁.get? dc = factors₂.get? dc) (t : τ) :
    ∃ replicas₁ replicas₂,
      ((Strategy.networkTopology factors₁).place ring₁).replicas.replicasFor? t = some replicas₁ ∧
      ((Strategy.networkTopology factors₂).place ring₂).replicas.replicasFor? t = some replicas₂ ∧
      within dc replicas₁ = within dc replicas₂ := by
  rcases ring₁.exists_ownerIndex? t hring₁ with ⟨i, hi, -⟩
  rcases ring₂.exists_ownerIndex? t hring₂ with ⟨j, hj, -⟩
  refine ⟨(ring₁.selectionFrom factors₁ i).replicas, (ring₂.selectionFrom factors₂ j).replicas,
    ?_, ?_, ?_⟩
  · rw [ring₁.replicas_place, ReplicaMap.replicasFor?_tabulate, hi, Option.map_some]
  · rw [ring₂.replicas_place, ReplicaMap.replicasFor?_tabulate, hj, Option.map_some]
  · rw [ring₁.within_selectionFrom, ring₂.within_selectionFrom,
      ring₁.within_nodesFrom_ownerIndex dc hi, ring₂.within_nodesFrom_ownerIndex dc hj,
      Ring.entriesIn_eq hentries, Strategy.fullReplicasIn, Strategy.fullReplicasIn, hfactor]

/-- Neither the nodes nor the factor of the west matter to the east. -/
theorem independent_sampleRing :
    ∃ replicas replicas',
      ((Strategy.networkTopology sampleFactors).place sampleRing).replicas.replicasFor? ⟨4⟩ =
        some replicas ∧
      ((Strategy.networkTopology ⟨[("east", .ofNat 2)], by decide⟩).place
        sampleRing').replicas.replicasFor? ⟨4⟩ = some replicas' ∧
      within "east" replicas = within "east" replicas' := by
  have hentries : ∀ e : Murmur3Token × Node, e.2.datacenter = some "east" →
      (e ∈ sampleRing.entries ↔ e ∈ sampleRing'.entries) := by
    intro e he
    have hne (t : Murmur3Token) (id : Fin 10) (dc rack : Option String) (hdc : dc ≠ some "east") :
        e ≠ (t, sampleNode id dc rack) := by
      intro heq
      rw [heq] at he
      exact hdc he
    simp [sampleRing, sampleRing', hne]
  exact independent_networkTopology (by decide) (by decide) hentries (by decide) ⟨4⟩

end TokenRing
