import TokenRing.Proofs.Placement.Replicas
import TokenRing.Proofs.Ring.Insertion

/-!
# A node that joins a ring

A new node comes with some tokens that were not on the ring. On the walk from any token the other
nodes are met in the order in which they were met before. So under the simple strategy the new node
takes the place of the last replica at most.
-/

namespace TokenRing

/-! ### Lists without a node -/

namespace Node

def without (id : NodeId) (nodes : List Node) : List Node :=
  nodes.filter (·.id ≠ id)

variable {nodes : List Node} {id : NodeId}

theorem without_eq_self (h : ∀ n ∈ nodes, n.id ≠ id) : without id nodes = nodes :=
  List.filter_eq_self.2 fun n hn => decide_eq_true (h n hn)

theorem length_without (id : NodeId) (nodes : List Node) :
    (without id nodes).length + nodes.countP (·.id = id) = nodes.length := by
  have hsplit := List.length_eq_countP_add_countP (fun n : Node => decide (n.id ≠ id)) (l := nodes)
  rw [List.countP_eq_length_filter] at hsplit
  rw [hsplit, without]
  simp

theorem countP_id_le_one (h : nodes.Pairwise (·.id ≠ ·.id)) (id : NodeId) :
    nodes.countP (·.id = id) ≤ 1 := by
  have hids : (nodes.map (·.id)).Nodup := List.pairwise_map.2 h
  have hcount := List.nodup_iff_count_le_one.1 hids id
  rw [List.count, List.countP_map] at hcount
  exact hcount

/-- Taking a number of nodes first leaves no more than taking it afterwards. -/
theorem without_take_prefix (id : NodeId) (nodes : List Node) (count : Nat) :
    without id (nodes.take count) <+: (without id nodes).take count := by
  have hlength := length_without id (nodes.take count)
  rw [List.length_take] at hlength
  apply List.prefix_take_iff.2
  constructor
  · exact (List.take_prefix count nodes).filter _
  · omega

/-- Leaving out a node after the first nodes are taken costs the last of them at most. -/
theorem without_take (h : nodes.Pairwise (·.id ≠ ·.id)) (id : NodeId) (count : Nat) :
    without id (nodes.take count) = (without id nodes).take count ∨
      without id (nodes.take count) = ((without id nodes).take count).dropLast := by
  have hpre := without_take_prefix id nodes count
  have hone := countP_id_le_one (h.sublist (List.take_sublist count nodes)) id
  have htaken := length_without id (nodes.take count)
  have hall := length_without id nodes
  -- At most one of the nodes taken is left out, so at most one is missing.
  by_cases hlength : ((without id nodes).take count).length ≤ (without id (nodes.take count)).length
  · exact .inl (hpre.eq_of_length_le hlength)
  · right
    rw [List.prefix_iff_eq_take.1 hpre, List.dropLast_eq_take]
    congr 1
    rw [List.length_take] at *
    omega

/-- If the node is not among those taken, leaving it out changes nothing. -/
theorem take_without {count : Nat} (h : ∀ n ∈ nodes.take count, n.id ≠ id) :
    (without id nodes).take count = nodes.take count := by
  have hpre := without_take_prefix id nodes count
  have hall := length_without id nodes
  rw [without_eq_self h] at hpre
  apply (hpre.eq_of_length_le _).symm
  rw [List.length_take, List.length_take]
  omega

end Node

/-! ### The ring with the new node -/

namespace Ring

variable {τ : Type} [Token τ]

/-- The ring with further tokens, all of a node that owned none. -/
def join (ring : Ring τ) (node : Node) (tokens : List τ) (hnode : ∀ n ∈ ring.owners, n.id ≠ node.id) :
    Ring τ :=
  let owned : SortedMap τ Node := ⟨ring.entries.toList, ring.ascending⟩
  { entries := (owned.insertAll tokens node).entries.toArray
    ascending := (owned.insertAll tokens node).ascending
    one_record := by
      have howner (e : τ × Node) (he : e ∈ (owned.insertAll tokens node).entries.toArray) :
          e.2 ∈ node :: ring.owners := by
        rcases SortedMap.mem_entries_insertAll.1 (List.mem_toArray.1 he) with ⟨-, hnode⟩ | ⟨-, hold⟩
        · exact hnode ▸ List.mem_cons_self
        · exact List.mem_cons_of_mem _ (List.mem_map_of_mem hold)
      have hrecord := ring.oneRecord_owners.cons fun n hn hid => absurd hid (hnode n hn)
      intro a ha b hb
      exact hrecord a.2 (howner a ha) b.2 (howner b hb) }

variable {ring : Ring τ} {node : Node} {tokens : List τ}

/-- The joined ring has the old entries and those of the new node. -/
theorem mem_entries_join (hnode : ∀ n ∈ ring.owners, n.id ≠ node.id)
    (hnew : ∀ t ∈ tokens, t ∉ ring.tokens) (e : τ × Node) :
    e ∈ (ring.join node tokens hnode).entries ↔
      e ∈ ring.entries ∨ e.2 = node ∧ e.1 ∈ tokens := by
  have hold (he : e ∈ ring.entries.toList) : e.1 ∉ tokens := fun h =>
    hnew e.1 h (List.mem_map_of_mem he)
  rw [← Array.mem_toList_iff]
  show e ∈ (SortedMap.insertAll _ tokens node).entries ↔ _
  rw [SortedMap.mem_entries_insertAll, and_iff_right_of_imp hold, Array.mem_toList_iff (a := e),
    or_comm, and_comm (a := e.1 ∈ tokens)]

/-! ### Walks on both rings -/

section Walks

variable {ring' : Ring τ} {t : τ} {i : Nat}
  (hentries : ∀ e, e ∈ ring'.entries ↔ e ∈ ring.entries ∨ e.2 = node ∧ e.1 ∈ tokens)

include hentries

theorem exists_ownerIndex?_of_join (h : ring.ownerIndex? t = some i) :
    ∃ j, ring'.ownerIndex? t = some j := by
  have hi := ring.lt_of_ownerIndex? h
  have hmem : ring.entries[i] ∈ ring'.entries := (hentries _).2 (.inl (Array.getElem_mem hi))
  obtain ⟨k, hk, -⟩ := Array.getElem_of_mem hmem
  obtain ⟨j, hj, -⟩ := ring'.exists_ownerIndex? t (ring'.isEmpty_eq_false_of_lt hk)
  exact ⟨j, hj⟩

variable (hnode : ∀ n ∈ ring.owners, n.id ≠ node.id)

include hnode

theorem eq_of_id_eq_of_join {n : Node} (hn : n ∈ ring'.owners) (hid : n.id = node.id) : n = node := by
  obtain ⟨e, he, rfl⟩ := List.mem_map.1 hn
  rcases (hentries e).1 (Array.mem_toList_iff.1 he) with hold | ⟨rfl, -⟩
  · exact absurd hid (hnode e.2 (List.mem_map_of_mem (Array.mem_toList_iff.2 hold)))
  · rfl

/-- Without the new node the joined ring is the old one, in the old order. -/
theorem filter_entries_of_join :
    ring'.entries.toList.filter (·.2.id ≠ node.id) = ring.entries.toList := by
  apply eq_of_ascending (ring'.ascending.filter _) ring.ascending
  intro e
  have hother (he : e ∈ ring.entries) : e.2.id ≠ node.id :=
    hnode e.2 (List.mem_map_of_mem (Array.mem_toList_iff.2 he))
  simp only [List.mem_filter, Array.mem_toList_iff, hentries, decide_eq_true_eq]
  constructor
  · rintro ⟨hold | ⟨hnew, -⟩, hne⟩
    · exact hold
    · exact absurd (congrArg Node.id hnew) hne
  · intro hold
    exact ⟨.inl hold, hother hold⟩

/-- The walks to compare start at the owners of one token, which may have different indices. -/
theorem without_nodesFrom_of_join {j : Nat} (hi : ring.ownerIndex? t = some i)
    (hj : ring'.ownerIndex? t = some j) :
    Node.without node.id (ring'.nodesFrom j) = ring.nodesFrom i := by
  -- The node may as well be left out before the walk, and then both rings have the same entries.
  have hwalk : (ring'.ownersFrom j).filter (·.id ≠ node.id) = ring.ownersFrom i := by
    rw [ownersFrom, ownersFrom, toList_walkFrom_ownerIndex _ hi, toList_walkFrom_ownerIndex _ hj,
      ← filter_entries_of_join hentries hnode, List.filter_map, List.filter_append]
    simp only [List.filter_filter, Bool.and_comm, Function.comp_def]
  rw [Node.without, nodesFrom, Node.filter_distinct (ring'.oneRecord_ownersFrom j), hwalk, nodesFrom]

end Walks

end Ring

/-! ### Main result -/

section Main

variable {p : Partitioner} {ring : Ring p.Token} {node : Node} {tokens : List p.Token}
  {factor : Factor}

/-- Registering the tokens behind all the others gives the joined ring. -/
theorem Builder.build_join {steps : List (Step p)} (hnode : ∀ n ∈ ring.owners, n.id ≠ node.id)
    (hnew : ∀ t ∈ tokens, t ∉ ring.tokens) (hbuild : (run steps).build = .ok ring)
    (hrecord : ∀ step ∈ steps, ∀ n, step.node? = some n → n.id = node.id → n = node) :
    (run (steps ++ [.addTokens node tokens])).build = .ok (ring.join node tokens hnode) :=
  build_concat hbuild rfl hnew hrecord (Ring.mem_entries_join hnode hnew)

/-- Let a node join a ring with new tokens. A builder of the ring that takes the node with its tokens
builds exactly the ring with them. For any token the replicas of the simple strategy without the node
are those on the old ring, or all of these but the last one; if the node is not among them, they are
the same on both rings. -/
theorem replicas_join (hempty : ring.isEmpty = false) (hnode : ∀ n ∈ ring.owners, n.id ≠ node.id)
    (hnew : ∀ t ∈ tokens, t ∉ ring.tokens) (full_pos : 0 < factor.full) :
    (∀ e, e ∈ (ring.join node tokens hnode).entries ↔
      e ∈ ring.entries ∨ e.2 = node ∧ e.1 ∈ tokens) ∧
    (∀ steps, (Builder.run steps).build = .ok ring →
      (∀ step ∈ steps, ∀ n, step.node? = some n → n.id = node.id → n = node) →
      (Builder.run (steps ++ [.addTokens node tokens])).build = .ok (ring.join node tokens hnode)) ∧
    ∀ t, ∃ before after,
      ((Strategy.simple factor full_pos).place ring).replicas.replicasFor? t = some before ∧
      ((Strategy.simple factor full_pos).place (ring.join node tokens hnode)).replicas.replicasFor? t =
        some after ∧
      (Node.without node.id after = before ∨ Node.without node.id after = before.dropLast) ∧
      (node ∉ after → after = before) := by
  have hentries := Ring.mem_entries_join hnode hnew
  refine ⟨hentries, fun steps hbuild hrecord => Builder.build_join hnode hnew hbuild hrecord, ?_⟩
  intro t
  obtain ⟨i, hi, -⟩ := ring.exists_ownerIndex? t hempty
  obtain ⟨j, hj⟩ := Ring.exists_ownerIndex?_of_join hentries hi
  have hwithout := Ring.without_nodesFrom_of_join hentries hnode hi hj
  refine ⟨(ring.nodesFrom i).take factor.full,
    ((ring.join node tokens hnode).nodesFrom j).take factor.full, ?_, ?_, ?_, ?_⟩
  · rw [Strategy.replicasFor?_place, hi, Option.map_some, Strategy.replicasFrom_simple]
  · rw [Strategy.replicasFor?_place, hj, Option.map_some, Strategy.replicasFrom_simple]
  · rw [← hwithout]
    exact Node.without_take (Node.pairwise_distinct _) node.id factor.full
  · intro habsent
    rw [← hwithout, Node.take_without]
    intro n hn hid
    -- Only the node itself has its identifier.
    have howner := (Ring.nodesFrom_subset _ j) (List.mem_of_mem_take hn)
    rw [Ring.eq_of_id_eq_of_join hentries hnode howner hid] at hn
    exact habsent hn

end Main

/-- From the token on, the new node comes before the second replica of the two asked for. -/
theorem replicas_join_sampleRing :
    ∃ (hnode : ∀ n ∈ sampleRing.owners, n.id ≠ (Node.sample 9 none none).id)
      (full_pos : 0 < Factor.full (.ofNat 2)) (before after : List Node),
      ((Strategy.simple (.ofNat 2) full_pos).place sampleRing).replicas.replicasFor? ⟨1⟩ =
        some before ∧
      ((Strategy.simple (.ofNat 2) full_pos).place
        (sampleRing.join (.sample 9 none none) [⟨9⟩, ⟨4⟩, ⟨-5⟩] hnode)).replicas.replicasFor? ⟨1⟩ =
          some after ∧
      (Node.without ⟨9, by decide⟩ after = before ∨
        Node.without ⟨9, by decide⟩ after = before.dropLast) := by
  have hempty : sampleRing.isEmpty = false := by decide
  have hnode : ∀ n ∈ sampleRing.owners, n.id ≠ (Node.sample 9 none none).id := by decide
  have hnew : ∀ t ∈ [⟨9⟩, ⟨4⟩, ⟨-5⟩], t ∉ sampleRing.tokens := by decide
  have hpos : 0 < Factor.full (.ofNat 2) := by decide
  obtain ⟨-, -, hall⟩ := replicas_join (p := .murmur3) hempty hnode hnew hpos
  obtain ⟨before, after, hbefore, hafter, hwithout, -⟩ := hall ⟨1⟩
  exact ⟨hnode, hpos, before, after, hbefore, hafter, hwithout⟩

end TokenRing
