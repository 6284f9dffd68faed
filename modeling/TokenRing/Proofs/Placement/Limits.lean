import TokenRing.Proofs.Placement.Replicas

/-!
# Strategies at their limits

With one replica the simple strategy chooses what the local strategy does. With as many as there are
nodes it chooses the same nodes as the everywhere strategy, in the order in which a walk meets them.
-/

namespace TokenRing

variable {τ : Type} [Token τ]

namespace Ring

variable (ring : Ring τ)

theorem mem_nodes_iff {n : Node} : n ∈ ring.nodes ↔ ∃ t, (t, n) ∈ ring.entries := by
  rw [nodes, Node.mem_distinct ring.oneRecord_owners, owners, List.mem_map]
  simp

/-- Whether a node has a token before all those of another one. -/
def Precedes (a b : Node) : Prop :=
  ∃ t, (t, a) ∈ ring.entries ∧ ∀ s, (s, b) ∈ ring.entries → t < s

theorem precedes_of_owners_eq {before after : List Node} {a b : Node}
    (hsplit : ring.owners = before ++ a :: after) (hbefore : ∀ n ∈ before, n.id ≠ b.id)
    (hne : a.id ≠ b.id) : ring.Precedes a b := by
  obtain ⟨front, back, hentries, rfl, hback⟩ := List.map_eq_append_iff.1 hsplit
  obtain ⟨⟨t, _⟩, rest, rfl, rfl, -⟩ := List.map_eq_cons_iff.1 hback
  have hasc := ring.ascending
  rw [hentries, List.pairwise_append, List.pairwise_cons] at hasc
  refine ⟨t, Array.mem_toList_iff.1 (by simp [hentries]), ?_⟩
  intro s hs
  -- The token can only be behind, since the nodes up to here have other identifiers.
  rw [← Array.mem_toList_iff, hentries, List.mem_append, List.mem_cons] at hs
  rcases hs with hfront | hhere | hrest
  · exact absurd rfl (hbefore b (List.mem_map_of_mem hfront))
  · exact absurd (congrArg (·.2.id) hhere).symm hne
  · exact hasc.2.1.1 _ hrest

/-- The nodes of the ring come in the order of their first tokens. -/
theorem pairwise_nodes : ring.nodes.Pairwise fun a b => a.id ≠ b.id ∧ ring.Precedes a b := by
  refine ((Node.pairwise_distinct ring.owners).and (Node.pairwise_distinct_met ring.owners)).imp ?_
  rintro a b ⟨hne, before, after, hsplit, hbefore⟩
  exact ⟨hne, ring.precedes_of_owners_eq hsplit hbefore hne⟩

/-- The walk from the first token meets the nodes in the order of the ring. -/
theorem nodesFrom_zero : ring.nodesFrom 0 = ring.nodes := by
  rw [nodesFrom_eq_rotate, List.rotate_zero, nodes]

end Ring

namespace Strategy

variable {factor : Factor} (full_pos : 0 < factor.full) (ring : Ring τ)

/-- One replica is the owner alone. -/
theorem place_simple_of_full_eq_one (h : factor.full = 1) :
    ((simple factor full_pos).place ring).replicas = (localOnly.place ring).replicas := by
  rw [replicas_eq_tabulate, replicas_eq_tabulate]
  apply ring.tabulate_congr
  intro i hi
  show _ = (ring.ownerAt? i).toList
  rw [replicasFrom_simple, h, List.take_one, ring.head?_nodesFrom hi, ring.ownerAt?_of_lt hi]

/-- With a factor for all nodes, each of them is a replica. -/
theorem replicasFrom_simple_of_le (h : ring.nodeCount ≤ factor.full) (index : Nat) :
    (simple factor full_pos).replicasFrom ring index = ring.nodesFrom index := by
  rw [replicasFrom_simple, List.take_of_length_le]
  rwa [ring.length_nodesFrom]

end Strategy

/-- The local strategy places what the simple one does with one full replica. The everywhere
strategy gives every token all nodes of the ring, in the order of their first tokens. With a factor
of at least the number of nodes the simple strategy gives every token the same nodes in some order,
and the first token in just that one. -/
theorem strategies_at_limits (ring : Ring τ) :
    (∀ (factor : Factor) (full_pos : 0 < factor.full), factor.full = 1 →
      (Strategy.localOnly.place ring).replicas =
        ((Strategy.simple factor full_pos).place ring).replicas) ∧
    ((Strategy.everywhere.place ring).replicas.keys = ring.tokens ∧
      ∀ t ∈ ring.tokens, (Strategy.everywhere.place ring).replicas.get? t = some ring.nodes) ∧
    ((∀ n, n ∈ ring.nodes ↔ ∃ t, (t, n) ∈ ring.entries) ∧
      (ring.nodes.Pairwise fun a b => a.id ≠ b.id ∧ ring.Precedes a b) ∧
      ring.nodes.length = ring.nodeCount) ∧
    ∀ (factor : Factor) (full_pos : 0 < factor.full), ring.nodeCount ≤ factor.full →
      (∀ t ∈ ring.tokens, ∃ replicas,
        ((Strategy.simple factor full_pos).place ring).replicas.get? t = some replicas ∧
        replicas.Perm ring.nodes) ∧
      ∀ t, ring.tokens.head? = some t →
        ((Strategy.simple factor full_pos).place ring).replicas.get? t = some ring.nodes := by
  refine ⟨fun factor full_pos hone => ?_, ⟨Strategy.keys_place _ ring, fun t ht => ?_⟩,
    ⟨fun n => ring.mem_nodes_iff, ring.pairwise_nodes, ring.nodeCount_eq_length_nodes.symm⟩,
    fun factor full_pos hall => ⟨fun t ht => ?_, fun t ht => ?_⟩⟩
  · exact (Strategy.place_simple_of_full_eq_one full_pos ring hone).symm
  · obtain ⟨i, hi, rfl⟩ := ring.exists_index_of_mem_tokens ht
    exact Strategy.get?_replicas_place .everywhere ring hi
  · obtain ⟨i, hi, rfl⟩ := ring.exists_index_of_mem_tokens ht
    refine ⟨ring.nodesFrom i, ?_, ring.distinct_ownersFrom_perm i⟩
    rw [Strategy.get?_replicas_place _ ring hi, Strategy.replicasFrom_simple_of_le _ ring hall]
  · rw [List.head?_eq_getElem?] at ht
    obtain ⟨hfirst, rfl⟩ := ring.getElem?_tokens_eq_some_iff.1 ht
    rw [Strategy.get?_replicas_place _ ring hfirst, Strategy.replicasFrom_simple_of_le _ ring hall,
      ring.nodesFrom_zero]

/-- One node has two of the tokens, and two of the replicas asked for are transient. -/
theorem strategies_at_limits_sampleRing :
    (∃ full_pos, (Strategy.localOnly.place sampleRing).replicas =
      ((Strategy.simple ⟨3, 2, by decide⟩ full_pos).place sampleRing).replicas) ∧
    (Strategy.everywhere.place sampleRing).replicas.get? ⟨5⟩ = some sampleRing.nodes ∧
    ∃ full_pos replicas,
      ((Strategy.simple ⟨7, 2, by decide⟩ full_pos).place sampleRing).replicas.get? ⟨5⟩ =
        some replicas ∧ replicas.Perm sampleRing.nodes ∧
      ((Strategy.simple ⟨7, 2, by decide⟩ full_pos).place sampleRing).replicas.get? ⟨-7⟩ =
        some sampleRing.nodes := by
  obtain ⟨hone, ⟨-, heverywhere⟩, -, hall⟩ := strategies_at_limits sampleRing
  obtain ⟨hperm, hfirst⟩ := hall ⟨7, 2, by decide⟩ (by decide) (by decide)
  obtain ⟨replicas, hget, hnodes⟩ := hperm ⟨5⟩ (by decide)
  exact ⟨⟨by decide, hone _ _ rfl⟩, heverywhere ⟨5⟩ (by decide),
    by decide, replicas, hget, hnodes, hfirst ⟨-7⟩ rfl⟩

end TokenRing
