import TokenRing.Proofs.Placement.NetworkTopology

/-!
# Part of a walk

What has been chosen after any number of entries of a walk. Of each datacenter it is known how many
replicas it has and on which racks, which of the nodes met are set aside, and how many datacenters
still wait for a replica. The walk is broken off when none does, and not before.
-/

namespace TokenRing

open Node

/-! ### One datacenter -/

namespace Quota

/-- What holds of the quota of a datacenter and its nodes. Of the nodes in `visited`, those in
`taken` are replicas. -/
structure LoopInvariant (q : Quota) (factor : Factor) (nodes taken visited : List Node) :
    Prop where
  wanted_eq : q.wanted = factor.full
  target_eq : q.target = min factor.full nodes.length
  accepted_eq : q.accepted = taken.length
  accepted_le : q.accepted ≤ q.target
  mem_used_iff : ∀ rack, rack ∈ q.used ↔ ∃ n ∈ taken, n.rack = some rack
  racksExhausted_iff : q.racksExhausted = true ↔ Node.racks nodes ⊆ q.used
  /-- While a rack is unused, no two replicas share one. -/
  rack_ne : ¬ Node.racks nodes ⊆ q.used → (taken.filter (·.rack.isSome)).Pairwise (·.rack ≠ ·.rack)
  /-- No node met is lost while more replicas are wanted. -/
  mem_taken_or_skipped : q.accepted < q.wanted → ∀ n ∈ visited, n ∈ taken ∨ n ∈ q.skipped
  skipped_eq_nil : Node.racks nodes ⊆ q.used → q.skipped = []
  skipped_pairwise : q.skipped.Pairwise (·.id ≠ ·.id)

namespace Tracks

variable {q : Quota} {own seen nodes : List Node}

/-- No more nodes are taken than wanted, and no more than were seen. -/
theorem length_own_le (h : q.Tracks own seen) : own.length ≤ min q.wanted seen.length := by
  have hlen := congrArg List.length h.own_eq
  have hle := length_orderSoFar_le q.racks seen
  rw [List.length_take] at hlen
  omega

/-- The racks are used up exactly if a node of each was taken. -/
theorem racks_le_iff (h : q.Tracks own seen) (hsub : seen ⊆ nodes)
    (hracks : q.racks = (Node.racks nodes).length) :
    q.racks ≤ q.used.length ↔ Node.racks nodes ⊆ q.used := by
  rw [hracks, h.used_eq]
  constructor
  · intro hle rack hrack
    exact mem_racks_of_length_le (List.Subset.trans h.own_subset hsub) hle hrack
  · intro hall
    exact ((nodup_racks nodes).subperm hall).length_le

/-- Until the racks are used up, each node that was taken has a rack of its own. -/
theorem rack_ne (h : q.Tracks own seen) (hnodup : seen.Nodup) (hopen : q.used.length < q.racks) :
    (own.filter (·.rack.isSome)).Pairwise (·.rack ≠ ·.rack) := by
  apply pairwise_rack_ne
  rw [h.used_eq] at hopen
  have hown := h.own_eq
  -- Either the last rack was not met, or the replicas are the first ones in rack order.
  by_cases hall : q.racks ≤ (Node.racks seen).length
  · rw [orderSoFar_of_le hall] at hown
    have hlen := length_racks_take_rackOrder hnodup q.wanted
    rw [← hown] at hlen
    omega
  · rw [orderSoFar_of_lt (Nat.lt_of_not_le hall)] at hown
    have hnodup' : own.Nodup := by
      rw [hown]
      exact (hnodup.filter _).sublist (List.take_sublist ..)
    have hleads : ∀ n ∈ own, leadsRack seen n = true := by
      rw [hown]
      exact fun n hn => (List.mem_filter.1 (List.mem_of_mem_take hn)).2
    exact Nat.le_of_eq (length_racks_of_leadsRack hnodup' hleads).symm

/-- The invariant follows from what is known of the nodes seen so far. -/
theorem loopInvariant (h : q.Tracks own seen) {factor : Factor} {visited : List Node}
    (hnodup : seen.Nodup) (hsub : seen ⊆ nodes) (hvisited : visited ⊆ seen)
    (hwanted : q.wanted = factor.full) (htarget : q.target = min factor.full nodes.length)
    (hracks : q.racks = (Node.racks nodes).length) : q.LoopInvariant factor nodes own visited where
  wanted_eq := hwanted
  target_eq := htarget
  accepted_eq := h.accepted_eq
  accepted_le := by
    have hown := h.length_own_le
    have hseen := (hnodup.subperm hsub).length_le
    rw [h.accepted_eq, htarget]
    omega
  mem_used_iff rack := by rw [h.used_eq, mem_racks]
  racksExhausted_iff := Quota.racksExhausted_iff.trans (h.racks_le_iff hsub hracks)
  rack_ne hunused := by
    have hopen := mt (h.racks_le_iff hsub hracks).1 hunused
    exact h.rack_ne hnodup (Nat.lt_of_not_le hopen)
  mem_taken_or_skipped hlt n hn := h.mem_own_or_skipped hlt (hvisited hn)
  skipped_eq_nil hall := h.skipped_eq_nil ((h.racks_le_iff hsub hracks).2 hall)
  skipped_pairwise := h.skipped_pairwise

end Tracks

end Quota

/-! ### All datacenters -/

namespace Selection

/-- What holds of a selection for a ring when the nodes in `visited` were offered. -/
structure LoopInvariant {τ : Type} [Token τ] (s : Selection) (ring : Ring τ)
    (factors : SortedMap String Factor) (visited : List Node) : Prop where
  keys_eq : s.quotas.keys = factors.keys
  quota : ∀ dc factor, factors.get? dc = some factor → ∃ q, s.quotas.get? dc = some q ∧
    q.LoopInvariant factor (ring.nodesIn dc) (within dc s.replicas) (within dc visited)
  pending_eq : s.pending = s.quotas.values.countP fun q => q.accepted < q.target
  /-- Where an offer takes one from the count, there is one to take. -/
  pending_offer : ∀ node dc q, node.datacenter = some dc → s.quotas.get? dc = some q →
    q.isMet = false → (q.offer s.replicas node).1.isMet = true →
    (s.offer node).pending + 1 = s.pending

theorem keys_offer (s : Selection) (node : Node) : (s.offer node).quotas.keys = s.quotas.keys := by
  unfold offer
  split
  · rfl
  · split
    · rfl
    · exact SortedMap.keys_modify ..

theorem keys_foldl_offer (s : Selection) (nodes : List Node) :
    (nodes.foldl offer s).quotas.keys = s.quotas.keys := by
  induction nodes generalizing s with
  | nil => rfl
  | cons node rest ih => rw [List.foldl_cons, ih, keys_offer]

/-- While a quota is not met, the loop goes on. -/
theorem pos_of_not_isMet {s : Selection} (h : s.pending = s.quotas.values.countP (!·.isMet))
    {dc : String} {q : Quota} (hq : s.quotas.get? dc = some q) (hmet : q.isMet = false) :
    0 < s.pending := by
  rw [h, List.countP_pos_iff]
  exact ⟨q, SortedMap.mem_values_iff.2 ⟨dc, hq⟩, by simp [hmet]⟩

end Selection

namespace Ring

variable {τ : Type} [Token τ] (ring : Ring τ) (factors : SortedMap String Factor)

/-- What is chosen when a number of entries were met on the walk from an index. -/
def selectionAfter (index count : Nat) : Selection :=
  ((ring.ownersFrom index).take count).foldl Selection.offer (Selection.start (ring.quotas factors))

/-- The state after a number of entries is that after their distinct nodes. -/
theorem selectionAfter_tracks (index count : Nat) :
    (ring.selectionAfter factors index count).Tracks factors (ring.nodesFrom index)
      (Node.distinct ((ring.ownersFrom index).take count)) :=
  (Selection.start_tracks fun dc => ring.get?_quotas factors dc index).foldl_take
    (ring.oneRecord_ownersFrom index) count

/-- The invariant holds after any number of entries. -/
theorem selectionAfter_loopInvariant (index count : Nat) :
    (ring.selectionAfter factors index count).LoopInvariant ring factors
      ((ring.ownersFrom index).take count) := by
  have htracks := ring.selectionAfter_tracks factors index count
  have hrec : OneRecord ((ring.ownersFrom index).take count) :=
    (ring.oneRecord_ownersFrom index).subset (List.take_subset ..)
  exact {
    keys_eq := by
      rw [selectionAfter, Selection.keys_foldl_offer]
      exact SortedMap.keys_mapValues ..
    quota := fun dc factor hfactor => by
      obtain ⟨q, hq, hwanted⟩ := htracks.quota_of_factor hfactor
      obtain ⟨_, -, -, htarget, hracks⟩ := htracks.limits_of_quota hq
      have hperm := ring.within_nodesFrom_perm dc index
      -- The quota was made for the nodes of the ring, and the walk meets the same in another order.
      refine ⟨q, hq, (htracks.quota dc q hq).loopInvariant ((nodup_distinct _).filter _) ?_ ?_
        hwanted ?_ ?_⟩
      · intro n hn
        obtain ⟨hn, hdc⟩ := mem_within.1 hn
        have hnode := (prefix_distinct_take (ring.ownersFrom index) count).subset hn
        exact hperm.mem_iff.1 (mem_within.2 ⟨hnode, hdc⟩)
      · intro n hn
        obtain ⟨hn, hdc⟩ := mem_within.1 hn
        exact mem_within.2 ⟨(mem_distinct hrec).2 hn, hdc⟩
      · rw [htarget, hwanted, hperm.length_eq]
      · rw [hracks, ring.length_racks_within_nodesFrom]
        rfl
    pending_eq := by
      rw [htracks.pending_eq]
      apply List.countP_congr
      intro q _
      simp [Quota.isMet]
    pending_offer := fun node dc q hdc hq hbefore hafter => by
      have hpos := Selection.pos_of_not_isMet htracks.pending_eq hq hbefore
      rw [Selection.offer_of_quota hdc hq]
      simp only [hbefore, hafter, Bool.not_false, Bool.true_and, if_true]
      omega }

theorem length_ownersFrom (index : Nat) : (ring.ownersFrom index).length = ring.size := by
  rw [(ring.ownersFrom_perm index).length_eq, owners, List.length_map, Array.length_toList, size]

end Ring

/-! ### Main result -/

/-- On a walk the invariant holds after any number of entries. The walk goes on while a datacenter
has less than it can get, and is broken off when none has. -/
theorem loopInvariant_selectionAfter {τ : Type} [Token τ] (ring : Ring τ)
    (factors : SortedMap String Factor) (index : Nat) :
    (∀ count, (ring.selectionAfter factors index count).LoopInvariant ring factors
      ((ring.ownersFrom index).take count)) ∧
    ∃ stop ≤ ring.size,
      ring.selectionFrom factors index = ring.selectionAfter factors index stop ∧
      (∀ count < stop, ∃ q ∈ (ring.selectionAfter factors index count).quotas.values,
        q.accepted < q.target) ∧
      (stop < ring.size → ∀ q ∈ (ring.selectionAfter factors index stop).quotas.values,
        q.target ≤ q.accepted) := by
  refine ⟨ring.selectionAfter_loopInvariant factors index, ?_⟩
  have hpending (count : Nat) :=
    (ring.selectionAfter_loopInvariant factors index count).pending_eq
  obtain ⟨stop, hle, hrun, hbefore, hend⟩ :=
    Selection.exists_stop (Selection.start (ring.quotas factors)) (ring.ownersFrom index)
  rw [ring.length_ownersFrom] at hle hend
  refine ⟨stop, hle, hrun, fun count hcount => ?_, fun hlt => ?_⟩
  · -- Where the walk goes on, the count is that of the quotas not met.
    have hpos : 0 < (ring.selectionAfter factors index count).pending :=
      Nat.pos_of_ne_zero (hbefore count hcount)
    rw [hpending, List.countP_pos_iff] at hpos
    simpa using hpos
  · have hzero : (ring.selectionAfter factors index stop).pending = 0 := hend hlt
    rw [hpending, List.countP_eq_zero] at hzero
    simpa using hzero

end TokenRing
