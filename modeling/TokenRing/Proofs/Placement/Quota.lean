import TokenRing.Placement.RackAware
import TokenRing.Proofs.Node.Distinct

/-!
# Offers

What one offer does to a quota and to the replicas, case by case. Its outcome depends on the
replicas of the quota's own datacenter only, and it leaves the limits of the quota alone.
-/

namespace TokenRing.Quota

open Node

/-! ### Accepting and filling -/

section Replicas

variable {q : Quota} {own : List Node} {node : Node}

theorem accept_of_any (h : own.any (·.id = node.id) = true) : q.accept own node = (q, own) :=
  if_pos h

theorem accept_of_not_any (h : own.any (·.id = node.id) = false) :
    q.accept own node = ({ q with accepted := q.accepted + 1 }, own ++ [node]) :=
  if_neg (by simp [h])

def filling (q : Quota) (own nodes : List Node) : List Node :=
  (nodes.filter fun n => !own.any (·.id = n.id)).take (q.wanted - q.accepted)

/-- Filling takes the first nodes that are still wanted and not among the replicas. -/
theorem fill_eq {nodes : List Node} (h : nodes.Pairwise (·.id ≠ ·.id)) :
    q.fill own nodes =
      ({ q with accepted := q.accepted + (q.filling own nodes).length },
        own ++ q.filling own nodes) := by
  -- The identifiers differ, so taking one node does not exclude another.
  induction nodes generalizing q own with
  | nil => simp [fill, filling]
  | cons node rest ih =>
    rcases List.pairwise_cons.1 h with ⟨hnode, hrest⟩
    rw [fill]
    by_cases hfull : q.wanted ≤ q.accepted
    · rw [if_pos hfull]
      simp [filling, Nat.sub_eq_zero_of_le hfull]
    rw [if_neg hfull]
    cases hany : own.any (·.id = node.id) with
    | true =>
      have hskip : q.filling own (node :: rest) = q.filling own rest := by
        unfold filling
        rw [List.filter_cons_of_neg (by simp [hany])]
      rw [accept_of_any hany, hskip]
      exact ih hrest
    | false =>
      have hsame : rest.filter (fun n => !(own ++ [node]).any (·.id = n.id)) =
          rest.filter fun n => !own.any (·.id = n.id) :=
        List.filter_congr fun n hn => by simp [hnode n hn]
      have htake : q.filling own (node :: rest) =
          node :: filling { q with accepted := q.accepted + 1 } (own ++ [node]) rest := by
        unfold filling
        rw [List.filter_cons_of_pos (by simp [hany]), hsame,
          show q.wanted - q.accepted = q.wanted - (q.accepted + 1) + 1 by omega,
          List.take_succ_cons]
      rw [accept_of_not_any hany, htake]
      dsimp only
      rw [ih hrest]
      simp [Nat.add_assoc, Nat.add_comm]

/-! ### The cases of an offer -/

theorem racksExhausted_iff : q.racksExhausted = true ↔ q.racks ≤ q.used.length :=
  decide_eq_true_iff

theorem offer_of_full (h : q.wanted ≤ q.accepted) : q.offer own node = (q, own) :=
  if_pos h

/-- Once every rack is used, any node is taken. -/
theorem offer_of_exhausted (hlt : q.accepted < q.wanted) (hall : q.racks ≤ q.used.length) :
    q.offer own node = q.accept own node := by
  rw [offer, if_neg (Nat.not_le.2 hlt), if_pos (racksExhausted_iff.2 hall)]

section Open

variable (hlt : q.accepted < q.wanted) (hopen : q.used.length < q.racks)
include hlt hopen

theorem offer_of_no_rack (hrack : node.rack = none) : q.offer own node = q.accept own node := by
  rw [offer, if_neg (Nat.not_le.2 hlt), if_neg (mt racksExhausted_iff.1 (Nat.not_le.2 hopen)),
    hrack]

/-- A node on a used rack is set aside. -/
theorem offer_of_used_rack {rack : String} (hrack : node.rack = some rack) (h : rack ∈ q.used) :
    q.offer own node = (q.skip node, own) := by
  rw [offer, if_neg (Nat.not_le.2 hlt), if_neg (mt racksExhausted_iff.1 (Nat.not_le.2 hopen)),
    hrack]
  exact if_pos h

/-- A node on a new rack is taken. -/
theorem offer_of_new_rack {rack : String} (hrack : node.rack = some rack) (h : rack ∉ q.used) :
    q.offer own node = q.acceptOnNewRack own node rack := by
  rw [offer, if_neg (Nat.not_le.2 hlt), if_neg (mt racksExhausted_iff.1 (Nat.not_le.2 hopen)),
    hrack]
  exact if_neg h

end Open

end Replicas

/-! ### Limits -/

def limits (q : Quota) : Nat × Nat × Nat :=
  (q.wanted, q.target, q.racks)

structure Extends (q' q : Quota) : Prop where
  limits_eq : q'.limits = q.limits
  accepted_le : q.accepted ≤ q'.accepted

namespace Extends

variable {q q' q'' : Quota}

theorem refl (q : Quota) : Extends q q :=
  ⟨rfl, Nat.le_refl _⟩

theorem trans (h : Extends q'' q') (h' : Extends q' q) : Extends q'' q :=
  ⟨h.limits_eq.trans h'.limits_eq, Nat.le_trans h'.accepted_le h.accepted_le⟩

theorem wanted_eq (h : Extends q' q) : q'.wanted = q.wanted :=
  congrArg (·.1) h.limits_eq

theorem target_eq (h : Extends q' q) : q'.target = q.target :=
  congrArg (·.2.1) h.limits_eq

theorem racks_eq (h : Extends q' q) : q'.racks = q.racks :=
  congrArg (·.2.2) h.limits_eq

theorem isMet (h : Extends q' q) (hmet : q.isMet = true) : q'.isMet = true := by
  have hle : q.target ≤ q.accepted := of_decide_eq_true hmet
  exact decide_eq_true (h.target_eq ▸ Nat.le_trans hle h.accepted_le)

end Extends

section Limits

variable (q : Quota) (own : List Node) (node : Node)

theorem accept_extends : Extends (q.accept own node).1 q := by
  unfold accept
  split
  · exact .refl q
  · exact ⟨rfl, Nat.le_succ _⟩

theorem fill_extends (nodes : List Node) : Extends (q.fill own nodes).1 q := by
  induction nodes generalizing q own with
  | nil => exact .refl q
  | cons node rest ih =>
    rw [fill]
    split
    · exact .refl q
    · exact (ih _ _).trans (q.accept_extends own node)

theorem acceptOnNewRack_extends (rack : String) :
    Extends (q.acceptOnNewRack own node rack).1 q := by
  have haccept := q.accept_extends own node
  unfold acceptOnNewRack
  dsimp only
  split
  · exact (fill_extends _ _ _).trans ⟨haccept.limits_eq, haccept.accepted_le⟩
  · exact ⟨haccept.limits_eq, haccept.accepted_le⟩

/-- An offer takes nothing back. -/
theorem offer_extends : Extends (q.offer own node).1 q := by
  unfold offer
  split
  · exact .refl q
  · split
    · exact q.accept_extends own node
    · split
      · exact q.accept_extends own node
      · split
        · exact ⟨rfl, Nat.le_refl _⟩
        · exact q.acceptOnNewRack_extends own node _

end Limits

/-! ### Replicas of other datacenters -/

/-- Two lists of replicas that hold the same of some nodes. -/
def Agree (nodes replicas own : List Node) : Prop :=
  ∀ n ∈ nodes, replicas.any (·.id = n.id) = own.any (·.id = n.id)

/-- Two outcomes, for two lists of replicas, by which the quota becomes the same and the same of
some nodes are added. -/
structure SameGain (nodes replicas own : List Node) (r o : Quota × List Node) : Prop where
  quota_eq : r.1 = o.1
  gain : ∃ added, r.2 = replicas ++ added ∧ o.2 = own ++ added ∧ added ⊆ nodes

section Frame

variable {nodes replicas own : List Node} {node : Node} {q : Quota}

theorem sameGain_refl (q : Quota) : SameGain nodes replicas own (q, replicas) (q, own) :=
  ⟨rfl, [], by simp⟩

/-- Outcomes that go on from two lists with the same gain have the same gain. -/
theorem SameGain.trans {added : List Node} {r o : Quota × List Node} (hadded : added ⊆ nodes)
    (h : SameGain nodes (replicas ++ added) (own ++ added) r o) :
    SameGain nodes replicas own r o := by
  rcases h.gain with ⟨more, hr, ho, hmore⟩
  -- The second gain follows the first.
  exact ⟨h.quota_eq, added ++ more, by rw [hr, List.append_assoc], by rw [ho, List.append_assoc],
    List.append_subset.2 ⟨hadded, hmore⟩⟩

theorem Agree.append (h : Agree nodes replicas own) (added : List Node) :
    Agree nodes (replicas ++ added) (own ++ added) := fun n hn => by
  rw [List.any_append, List.any_append, h n hn]

/-- Replicas of other datacenters do not matter when a node is taken. -/
theorem accept_sameGain (h : Agree nodes replicas own) (hnode : node ∈ nodes) :
    SameGain nodes replicas own (q.accept replicas node) (q.accept own node) := by
  unfold accept
  rw [h node hnode]
  split
  · exact sameGain_refl q
  · exact ⟨rfl, [node], rfl, rfl, by simpa using hnode⟩

/-- Replicas of other datacenters do not matter when a quota is filled. -/
theorem fill_sameGain (h : Agree nodes replicas own) {rest : List Node} (hrest : rest ⊆ nodes) :
    SameGain nodes replicas own (q.fill replicas rest) (q.fill own rest) := by
  induction rest generalizing q replicas own with
  | nil => exact sameGain_refl q
  | cons node rest ih =>
    rcases List.cons_subset.1 hrest with ⟨hnode, hrest⟩
    rw [fill, fill]
    split
    · exact sameGain_refl q
    · -- The lists agree again after both took the node, or neither did.
      have hone := accept_sameGain (q := q) h hnode
      rcases hone.gain with ⟨added, hr, ho, hadded⟩
      apply SameGain.trans hadded
      change SameGain nodes _ _ ((q.accept replicas node).1.fill (q.accept replicas node).2 rest)
        ((q.accept own node).1.fill (q.accept own node).2 rest)
      rw [hone.quota_eq, hr, ho]
      exact ih (h.append added) hrest

theorem acceptOnNewRack_sameGain (h : Agree nodes replicas own) (hnode : node ∈ nodes)
    (hskipped : q.skipped ⊆ nodes) (rack : String) :
    SameGain nodes replicas own (q.acceptOnNewRack replicas node rack)
      (q.acceptOnNewRack own node rack) := by
  have hone := accept_sameGain (q := q) h hnode
  rcases hone.gain with ⟨added, hr, ho, hadded⟩
  have hkept : (q.accept own node).1.skipped ⊆ nodes := by
    unfold accept
    split <;> exact hskipped
  unfold acceptOnNewRack
  dsimp only
  rw [hone.quota_eq, hr, ho]
  apply SameGain.trans hadded
  split
  · exact fill_sameGain (h.append added) hkept
  · exact sameGain_refl _

/-- An offer does not look at replicas that are neither the node offered nor set aside. -/
theorem offer_sameGain (h : Agree nodes replicas own) (hnode : node ∈ nodes)
    (hskipped : q.skipped ⊆ nodes) :
    SameGain nodes replicas own (q.offer replicas node) (q.offer own node) := by
  unfold offer
  split
  · exact sameGain_refl q
  · split
    · exact accept_sameGain h hnode
    · split
      · exact accept_sameGain h hnode
      · split
        · exact sameGain_refl _
        · exact acceptOnNewRack_sameGain h hnode hskipped _

end Frame

end TokenRing.Quota
