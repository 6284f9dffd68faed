import TokenRing.Proofs.Placement.Routing

/-!
# Simple placement

A walk that breaks off with enough distinct nodes takes the first nodes of a whole revolution without
its repetitions. Since no revolution meets more nodes than the ring has tokens, the count of the
tokens is no limit to the replicas.
-/

namespace TokenRing

/-! ### Breaking off -/

theorem takeDistinct_of_le {count : Nat} {taken : List Node} (h : count ≤ taken.length)
    (nodes : List Node) : takeDistinct count taken nodes = taken := by
  cases nodes with
  | nil => rfl
  | cons node rest => exact if_pos h

/-- The nodes of `done` were met, and the first of them were taken. -/
theorem takeDistinct_take_distinct (count : Nat) (done rest : List Node) :
    takeDistinct count ((Node.distinct done).take count) rest =
      (Node.distinct (done ++ rest)).take count := by
  -- On the nodes still to come, for all that were met so far.
  induction rest generalizing done with
  | nil => rw [takeDistinct, List.append_nil]
  | cons node rest ih =>
    by_cases hfull : count ≤ (Node.distinct done).length
    · -- Enough nodes were met, and those that follow come behind them.
      have hlen : ((Node.distinct done).take count).length = count :=
        List.length_take_of_le hfull
      have hpre := (Node.distinct_prefix done (node :: rest)).take count
      rw [takeDistinct_of_le (Nat.le_of_eq hlen.symm)]
      apply hpre.eq_of_length_le
      rw [hlen]
      exact List.length_take_le _ _
    · -- All nodes met so far were taken, and the next one is if it is new.
      have hshort : (Node.distinct done).take count = Node.distinct done :=
        List.take_of_length_le (Nat.le_of_not_le hfull)
      have hmore : (Node.distinct (done ++ [node])).take count = Node.distinct (done ++ [node]) := by
        apply List.take_of_length_le
        have hlen := Node.length_append_le (Node.distinct done) node
        rw [Node.distinct_concat]
        omega
      have hrest := ih (done ++ [node])
      rw [hmore, Node.distinct_concat, List.append_assoc, List.singleton_append] at hrest
      rw [hshort, takeDistinct, if_neg hfull, hrest]

/-- From nothing on, the first distinct nodes are taken. -/
theorem takeDistinct_nil (count : Nat) (nodes : List Node) :
    takeDistinct count [] nodes = (Node.distinct nodes).take count := by
  have hall := takeDistinct_take_distinct count [] nodes
  rwa [Node.distinct, List.take_nil, List.nil_append] at hall

namespace Ring

variable {τ : Type} [Token τ] (ring : Ring τ)

/-- The nodes met on a walk are the distinct owners from its start on. -/
theorem nodesFrom_eq_rotate (index : Nat) :
    ring.nodesFrom index = Node.distinct (ring.owners.rotate index) := by
  rw [nodesFrom, ownersFrom_eq_rotate]

theorem length_nodesFrom (index : Nat) : (ring.nodesFrom index).length = ring.nodeCount := by
  rw [nodeCount_eq_length_nodes]
  exact (ring.distinct_ownersFrom_perm index).length_eq

theorem nodeCount_le_size : ring.nodeCount ≤ ring.size := by
  have hlen := (Node.distinct_sublist ring.owners).length_le
  rw [owners, List.length_map, Array.length_toList] at hlen
  rw [nodeCount_eq_length_nodes]
  exact hlen

end Ring

variable {τ : Type} [Token τ]

theorem Strategy.replicasFrom_simple {factor : Factor} (full_pos : 0 < factor.full)
    (ring : Ring τ) (index : Nat) :
    (simple factor full_pos).replicasFrom ring index =
      (ring.nodesFrom index).take factor.full := by
  change takeDistinct (min factor.full ring.size) [] (ring.ownersFrom index) = _
  have hsize : (ring.nodesFrom index).length ≤ ring.size := by
    rw [ring.length_nodesFrom]
    exact ring.nodeCount_le_size
  rw [takeDistinct_nil, ← Ring.nodesFrom, List.take_eq_take_iff]
  omega

/-- The replicas of the token at an index are the first nodes of one revolution from it without its
repetitions: as many as the factor asks for or as the ring has, and the same with the count of the
tokens as a further limit and without it. -/
theorem replicas_simple {factor : Factor} (full_pos : 0 < factor.full) (ring : Ring τ)
    (i : Fin ring.size) :
    ∃ t replicas, ring.tokenAt? i = some t ∧
      ((Strategy.simple factor full_pos).place ring).replicas.get? t = some replicas ∧
      replicas = (Node.distinct (ring.owners.rotate i)).take factor.full ∧
      replicas.length = min factor.full ring.nodeCount ∧
      replicas = takeDistinct factor.full [] (ring.ownersFrom i) := by
  refine ⟨_, _, ring.tokenAt?_of_lt i.isLt, Strategy.get?_replicas_place _ ring i.isLt, ?_, ?_, ?_⟩
  · rw [Strategy.replicasFrom_simple, Ring.nodesFrom_eq_rotate]
  · rw [Strategy.replicasFrom_simple, List.length_take, Ring.length_nodesFrom]
  · rw [Strategy.replicasFrom_simple, takeDistinct_nil, Ring.nodesFrom]

/-- Two of the five replicas are transient, and the first node has one more token further on. -/
theorem replicas_simple_sampleRing :
    ∃ (full_pos : 0 < Factor.full ⟨5, 2, by decide⟩) (replicas : List Node),
      ((Strategy.simple ⟨5, 2, by decide⟩ full_pos).place sampleRing).replicas.get? ⟨2⟩ =
        some replicas ∧
      replicas.map (·.id.value) = [1, 4, 5] := by
  have hpos : 0 < Factor.full ⟨5, 2, by decide⟩ := by decide
  obtain ⟨t, replicas, htoken, hget, heq, -, -⟩ :=
    replicas_simple hpos sampleRing ⟨3, by decide⟩
  obtain rfl : ⟨2⟩ = t := Option.some.inj htoken
  refine ⟨hpos, replicas, hget, ?_⟩
  rw [heq]
  decide

end TokenRing
