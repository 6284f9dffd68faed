import TokenRing.Proofs.Placement.Simple

/-!
# Lists of replicas

What every strategy keeps to: each token of the ring gets a list of nodes of the ring, none of them
twice. Only under the network topology strategy can the list be empty.
-/

namespace TokenRing

theorem Node.count_within {dc : String} {node : Node} (h : node.datacenter = some dc)
    (nodes : List Node) : (within dc nodes).count node = nodes.count node :=
  List.count_filter (decide_eq_true h)

variable {τ : Type} [Token τ]

namespace Ring

variable (ring : Ring τ) (factors : SortedMap String Factor)

/-- A walk meets the owner of its first token first. -/
theorem head?_nodesFrom {i : Nat} (hi : i < ring.entries.size) :
    (ring.nodesFrom i).head? = some ring.entries[i].2 := by
  have hlen : i < ring.owners.length := by
    rw [owners, List.length_map, Array.length_toList]
    exact hi
  rw [nodesFrom_eq_rotate, Node.head?_distinct, List.head?_rotate hlen,
    List.getElem?_eq_getElem hlen]
  simp [owners]

theorem nodesFrom_subset (index : Nat) : ring.nodesFrom index ⊆ ring.owners :=
  List.Subset.trans (Node.distinct_subset _) (ring.ownersFrom_perm index).subset

theorem selectionFrom_subset (index : Nat) :
    (ring.selectionFrom factors index).replicas ⊆ ring.nodesFrom index := by
  obtain ⟨seen, hpre, htracks, -⟩ := ring.selectionFrom_tracks factors index
  exact List.Subset.trans htracks.replicas_subset hpre.subset

/-- Every replica stands in some datacenter, and none is twice among the replicas of that. -/
theorem nodup_selectionFrom (index : Nat) :
    (ring.selectionFrom factors index).replicas.Nodup := by
  obtain ⟨seen, -, htracks, -⟩ := ring.selectionFrom_tracks factors index
  rw [List.nodup_iff_count_le_one]
  intro n
  by_cases hn : n ∈ (ring.selectionFrom factors index).replicas
  · obtain ⟨dc, hdc, -⟩ := htracks.configured n hn
    -- The share of its datacenter is a start of the rack order, where no node is twice.
    have hshare : (Node.within dc (ring.nodesFrom index)).Nodup :=
      (Node.nodup_distinct _).filter _
    have hwithin : (Node.within dc (ring.selectionFrom factors index).replicas).Nodup := by
      rw [within_selectionFrom]
      exact ((Node.rackOrder_perm _).nodup_iff.2 hshare).sublist (List.take_sublist _ _)
    rw [← Node.count_within hdc]
    exact List.nodup_iff_count_le_one.1 hwithin n
  · rw [List.count_eq_zero_of_not_mem hn]
    exact Nat.zero_le 1

end Ring

namespace Strategy

variable (strategy : Strategy) (ring : Ring τ)

theorem replicasFrom_subset (index : Nat) : strategy.replicasFrom ring index ⊆ ring.owners := by
  cases strategy with
  | localOnly =>
    intro n hn
    obtain ⟨e, he, rfl⟩ := Option.map_eq_some_iff.1 (Option.mem_toList.1 hn)
    exact List.mem_map_of_mem (Array.mem_toList_iff.2 (Array.mem_of_getElem? he))
  | simple factor full_pos =>
    rw [replicasFrom_simple]
    exact List.Subset.trans (List.take_subset _ _) (ring.nodesFrom_subset index)
  | networkTopology factors =>
    exact List.Subset.trans (ring.selectionFrom_subset factors index) (ring.nodesFrom_subset index)
  | everywhere => exact Node.distinct_subset _

theorem nodup_replicasFrom (index : Nat) : (strategy.replicasFrom ring index).Nodup := by
  cases strategy with
  | localOnly =>
    change (ring.ownerAt? index).toList.Nodup
    cases ring.ownerAt? index <;> simp
  | simple factor full_pos =>
    rw [replicasFrom_simple]
    exact (Node.nodup_distinct _).sublist (List.take_sublist _ _)
  | networkTopology factors => exact ring.nodup_selectionFrom factors index
  | everywhere => exact Node.nodup_distinct _

/-- Different nodes of a ring have different identifiers. -/
theorem pairwise_replicasFrom (index : Nat) :
    (strategy.replicasFrom ring index).Pairwise (·.id ≠ ·.id) := by
  have hrecord := ring.oneRecord_owners.subset (strategy.replicasFrom_subset ring index)
  refine (strategy.nodup_replicasFrom ring index).imp_of_mem ?_
  intro a b ha hb hne hid
  exact hne (hrecord a ha b hb hid)

/-- The first replica is the owner of the token. -/
theorem head?_replicasFrom {i : Nat} (hi : i < ring.entries.size)
    (h : strategy.strategyClass = .localOnly ∨ strategy.strategyClass = .simple) :
    (strategy.replicasFrom ring i).head? = some ring.entries[i].2 := by
  cases strategy with
  | localOnly =>
    change (ring.ownerAt? i).toList.head? = _
    rw [ring.ownerAt?_of_lt hi]
    rfl
  | simple factor full_pos =>
    rw [replicasFrom_simple, List.head?_take, if_neg (Nat.ne_of_gt full_pos)]
    exact ring.head?_nodesFrom hi
  | networkTopology factors => simp [strategyClass] at h
  | everywhere => simp [strategyClass] at h

theorem replicasFrom_ne_nil {i : Nat} (hi : i < ring.entries.size)
    (h : strategy.strategyClass ≠ .networkTopology) : strategy.replicasFrom ring i ≠ [] := by
  have hhead (hclass : strategy.strategyClass = .localOnly ∨ strategy.strategyClass = .simple) :
      strategy.replicasFrom ring i ≠ [] := by
    intro hnil
    have hhead := strategy.head?_replicasFrom ring hi hclass
    rw [hnil] at hhead
    cases hhead
  cases strategy with
  | localOnly => exact hhead (.inl rfl)
  | simple factor full_pos => exact hhead (.inr rfl)
  | networkTopology factors => exact absurd rfl h
  | everywhere =>
    -- The owner of the token is one of the nodes.
    have howner : ring.entries[i].2 ∈ ring.nodes :=
      (Node.mem_distinct ring.oneRecord_owners).2
        (List.mem_map_of_mem (Array.mem_toList_iff.2 (Array.getElem_mem hi)))
    exact List.ne_nil_of_mem howner

end Strategy

/-- Under every strategy the map has the tokens of the ring, in their order. Each of them has a list
of nodes on record in the ring, with no identifier twice. It is empty under the network topology
strategy at most, and under the local and the simple strategy the owner of the token comes first. -/
theorem replicas_wellFormed (strategy : Strategy) (ring : Ring τ) :
    (strategy.place ring).replicas.keys = ring.tokens ∧
    ∀ e ∈ ring.entries, ∃ replicas, (strategy.place ring).replicas.get? e.1 = some replicas ∧
      replicas.Pairwise (·.id ≠ ·.id) ∧
      (∀ n ∈ replicas, ∃ t, (t, n) ∈ ring.entries) ∧
      (strategy.strategyClass ≠ .networkTopology → replicas ≠ []) ∧
      (strategy.strategyClass = .localOnly ∨ strategy.strategyClass = .simple →
        replicas.head? = some e.2) := by
  refine ⟨?_, fun e he => ?_⟩
  · rw [strategy.replicas_eq_tabulate, ring.keys_tabulate]
  · obtain ⟨i, hi, rfl⟩ := Array.getElem_of_mem he
    refine ⟨strategy.replicasFrom ring i, strategy.get?_replicas_place ring hi,
      strategy.pairwise_replicasFrom ring i, fun n hn => ?_, strategy.replicasFrom_ne_nil ring hi,
      strategy.head?_replicasFrom ring hi⟩
    obtain ⟨⟨t, _⟩, hentry, rfl⟩ := List.mem_map.1 (strategy.replicasFrom_subset ring i hn)
    exact ⟨t, Array.mem_toList_iff.1 hentry⟩

/-- More replicas are asked for than the ring has nodes, and the owner has another token. -/
theorem replicas_wellFormed_sampleRing :
    ∃ (full_pos : 0 < Factor.full (.ofNat 9)) (replicas : List Node),
      ((Strategy.simple (.ofNat 9) full_pos).place sampleRing).replicas.get? ⟨2⟩ =
        some replicas ∧
      replicas.Pairwise (·.id ≠ ·.id) ∧ replicas ≠ [] ∧
      replicas.head?.map (·.id.value) = some 1 := by
  have hpos : 0 < Factor.full (.ofNat 9) := by decide
  have hthird : 3 < sampleRing.entries.size := by decide
  obtain ⟨-, hlists⟩ := replicas_wellFormed (.simple (.ofNat 9) hpos) sampleRing
  obtain ⟨replicas, hget, hdistinct, -, hne, hhead⟩ :=
    hlists sampleRing.entries[3] (Array.getElem_mem hthird)
  refine ⟨hpos, replicas, hget, hdistinct, hne nofun, ?_⟩
  rw [hhead (.inr rfl)]
  rfl

end TokenRing
