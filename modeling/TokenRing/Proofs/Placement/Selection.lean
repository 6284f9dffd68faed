import Mathlib.Data.List.Infix
import TokenRing.Proofs.Placement.QuotaProgress
import TokenRing.Proofs.SortedMap

/-!
# Selections along a walk

A walk offers its nodes to all datacenters at once. `Selection.Tracks` says what has been chosen
after some of them: the quota of each datacenter tracks its own replicas, the count of pending
quotas is right, and the replicas are listed by the positions at which they were taken. Breaking
off when no quota is pending does not change what is chosen.
-/

namespace TokenRing

def Node.within (dc : String) (nodes : List Node) : List Node :=
  nodes.filter (·.datacenter = some dc)

/-- Nodes in the order of the positions on a walk at which they are taken. Only nodes of one
datacenter share a position. -/
def Node.TakenBefore (walk : List Node) (a b : Node) : Prop :=
  takenAt walk a < takenAt walk b ∨
    takenAt walk a = takenAt walk b ∧ a.datacenter = b.datacenter

open Node

section Within

variable {dc : String} {nodes : List Node} {node : Node}

theorem Node.mem_within : node ∈ within dc nodes ↔ node ∈ nodes ∧ node.datacenter = some dc := by
  simp [within]

theorem Node.within_append (nodes rest : List Node) :
    within dc (nodes ++ rest) = within dc nodes ++ within dc rest :=
  List.filter_append ..

theorem Node.within_eq_self (h : ∀ n ∈ nodes, n.datacenter = some dc) : within dc nodes = nodes :=
  List.filter_eq_self.2 fun n hn => decide_eq_true (h n hn)

theorem Node.within_eq_nil (h : ∀ n ∈ nodes, n.datacenter ≠ some dc) : within dc nodes = [] :=
  List.filter_eq_nil_iff.2 fun n hn heq => h n hn (of_decide_eq_true heq)

theorem Node.within_singleton (h : node.datacenter = some dc) : within dc [node] = [node] :=
  within_eq_self fun _ hn => List.mem_singleton.1 hn ▸ h

theorem Node.within_append_of_ne (h : node.datacenter ≠ some dc) :
    within dc (append nodes node) = within dc nodes := by
  unfold append
  split
  · rfl
  · have hnone : within dc [node] = [] := within_eq_nil fun _ hn => List.mem_singleton.1 hn ▸ h
    rw [within_append, hnone, List.append_nil]

/-- In a list with one record for each identifier, one more node is one more of its datacenter. -/
theorem Node.within_append_of_eq (hrec : OneRecord (nodes ++ [node]))
    (h : node.datacenter = some dc) :
    within dc (append nodes node) = append (within dc nodes) node := by
  by_cases hmem : node ∈ nodes
  · rw [append_of_mem hmem, append_of_mem (mem_within.2 ⟨hmem, h⟩)]
  · have hsub : within dc nodes ++ [node] ⊆ nodes ++ [node] :=
      List.append_subset.2 ⟨fun n hn => List.mem_append_left _ (mem_within.1 hn).1,
        List.subset_append_right ..⟩
    rw [hrec.append_of_not_mem hmem, within_append, within_singleton h,
      (hrec.subset hsub).append_of_not_mem fun hn => hmem (mem_within.1 hn).1]

end Within

namespace Selection

/-! ### The cases of an offer -/

/-- A node of a datacenter without a quota is passed over. -/
theorem offer_of_ignored {s : Selection} {node : Node}
    (h : ∀ dc, node.datacenter = some dc → s.quotas.get? dc = none) : s.offer node = s := by
  unfold offer
  cases hdc : node.datacenter with
  | none => rfl
  | some dc =>
    dsimp only
    rw [h dc hdc]

theorem offer_of_quota {s : Selection} {node : Node} {dc : String} {q : Quota}
    (hdc : node.datacenter = some dc) (hq : s.quotas.get? dc = some q) :
    s.offer node =
      { quotas := s.quotas.modify dc fun _ => (q.offer s.replicas node).1
        replicas := (q.offer s.replicas node).2
        pending := if !q.isMet && (q.offer s.replicas node).1.isMet then s.pending - 1
          else s.pending } := by
  rw [offer, hdc]
  dsimp only
  rw [hq]

/-! ### The invariant -/

/-- What has been chosen after the nodes of `seen` were met on a walk that meets those of `walk`. -/
structure Tracks (factors : SortedMap String Factor) (walk : List Node) (s : Selection)
    (seen : List Node) : Prop where
  limits_eq : ∀ dc, (s.quotas.get? dc).map Quota.limits = (factors.get? dc).map fun factor =>
    (factor.full, min factor.full (within dc walk).length, (racks (within dc walk)).length)
  quota : ∀ dc q, s.quotas.get? dc = some q → q.Tracks (within dc s.replicas) (within dc seen)
  replicas_subset : s.replicas ⊆ seen
  configured : ∀ n ∈ s.replicas, ∃ dc, n.datacenter = some dc ∧ (factors.get? dc).isSome
  pending_eq : s.pending = s.quotas.values.countP (!·.isMet)
  takenAt_lt : ∀ n ∈ s.replicas, takenAt walk n < seen.length
  ordered : s.replicas.Pairwise (TakenBefore walk)

namespace Tracks

variable {factors : SortedMap String Factor} {walk seen : List Node} {s : Selection} {node : Node}

/-- Each quota keeps the limits that its factor and the walk set. -/
theorem limits_of_quota (h : Tracks factors walk s seen) {dc : String} {q : Quota}
    (hq : s.quotas.get? dc = some q) :
    ∃ factor, factors.get? dc = some factor ∧ q.wanted = factor.full ∧
      q.target = min q.wanted (within dc walk).length ∧
      q.racks = (racks (within dc walk)).length := by
  have hlimits := h.limits_eq dc
  rw [hq, Option.map_some] at hlimits
  rcases Option.map_eq_some_iff.1 hlimits.symm with ⟨factor, hfactor, heq⟩
  simp only [Quota.limits, Prod.mk.injEq] at heq
  exact ⟨factor, hfactor, heq.1.symm, by rw [← heq.1, heq.2.1], heq.2.2.symm⟩

theorem quota_of_factor (h : Tracks factors walk s seen) {dc : String} {factor : Factor}
    (hfactor : factors.get? dc = some factor) :
    ∃ q, s.quotas.get? dc = some q ∧ q.wanted = factor.full := by
  have hlimits := h.limits_eq dc
  rw [hfactor, Option.map_some] at hlimits
  rcases Option.map_eq_some_iff.1 hlimits with ⟨q, hq, heq⟩
  exact ⟨q, hq, congrArg (·.1) heq⟩

/-! ### One offer -/

theorem offer_ignored (h : Tracks factors walk s seen)
    (hnone : ∀ dc, node.datacenter = some dc → s.quotas.get? dc = none) :
    Tracks factors walk (s.offer node) (append seen node) := by
  rw [offer_of_ignored hnone]
  exact {
    limits_eq := h.limits_eq
    quota := fun dc q hq => by
      have hne : node.datacenter ≠ some dc := fun heq => by
        rw [hnone dc heq] at hq
        cases hq
      rw [within_append_of_ne hne]
      exact h.quota dc q hq
    replicas_subset := List.Subset.trans h.replicas_subset (subset_append seen node)
    configured := h.configured
    pending_eq := h.pending_eq
    takenAt_lt := fun n hn => Nat.lt_of_lt_of_le (h.takenAt_lt n hn) (length_le_append seen node)
    ordered := h.ordered }

theorem seen_subset (hnode : node ∈ walk) (hpre : append seen node <+: walk) :
    seen ++ [node] ⊆ walk :=
  List.append_subset.2
    ⟨fun _ hn => hpre.subset (subset_append seen node hn), by simpa using hnode⟩

section Offered

variable (h : Tracks factors walk s seen) (hrec : OneRecord walk) (hnodup : walk.Nodup)
  (hnode : node ∈ walk) (hpre : append seen node <+: walk) {dc : String} {q : Quota}
  (hdc : node.datacenter = some dc) (hq : s.quotas.get? dc = some q)
include h hrec hnode hpre hdc hq

/-- What the quota of the node's datacenter gains does not depend on the other replicas. -/
theorem offer_sameGain :
    Quota.SameGain (within dc walk) s.replicas (within dc s.replicas) (q.offer s.replicas node)
      (q.offer (within dc s.replicas) node) := by
  have hseen : seen ⊆ walk := fun n hn => hpre.subset (subset_append seen node hn)
  have hreplicas : s.replicas ⊆ walk := List.Subset.trans h.replicas_subset hseen
  refine Quota.offer_sameGain (fun n hn => ?_) (mem_within.2 ⟨hnode, hdc⟩) fun n hn => ?_
  · rcases mem_within.1 hn with ⟨hn, hndc⟩
    have hown : within dc s.replicas ⊆ walk := fun m hm => hreplicas (mem_within.1 hm).1
    rw [hrec.any_id_eq hreplicas hn, hrec.any_id_eq hown hn, decide_eq_decide, mem_within]
    exact (and_iff_left hndc).symm
  · rcases mem_within.1 ((h.quota dc q hq).skipped_subset hn) with ⟨hn, hndc⟩
    exact mem_within.2 ⟨hseen hn, hndc⟩

omit hrec hnode hdc in
theorem length_racks_within_le :
    (racks (within dc (append seen node))).length ≤ q.racks := by
  rcases h.limits_of_quota hq with ⟨_, -, -, -, hracks⟩
  rw [hracks]
  exact length_racks_le (List.filter_subset _ hpre.subset)

/-- The offer keeps the quota of the node's datacenter on the track. -/
theorem quota_offer :
    (q.offer (within dc s.replicas) node).1.Tracks (q.offer (within dc s.replicas) node).2
      (within dc (append seen node)) := by
  have hsub := seen_subset hnode hpre
  have hle := h.length_racks_within_le hpre hq
  rw [within_append_of_eq (hrec.subset hsub) hdc] at hle ⊢
  refine (h.quota dc q hq).offer (hrec.subset fun n hn => hsub ?_) hle
  rcases List.mem_append.1 hn with hn | hn
  · exact List.mem_append_left _ (mem_within.1 hn).1
  · exact List.mem_append_right _ hn

include hnodup in
/-- All nodes gained are taken at the position of the node that is offered. -/
theorem takenAt_of_gain {added : List Node}
    (hadded : (q.offer (within dc s.replicas) node).2 = within dc s.replicas ++ added) {n : Node}
    (hn : n ∈ added) :
    n.datacenter = some dc ∧ takenAt walk n = seen.length ∧
      (append seen node).length = seen.length + 1 := by
  have hquota := h.quota dc q hq
  have hrec' := hrec.subset (seen_subset hnode hpre)
  have hle := h.length_racks_within_le hpre hq
  have hoffer := (h.quota_offer hrec hnode hpre hdc hq).own_eq
  have hextends := q.offer_extends (within dc s.replicas) node
  rcases h.limits_of_quota hq with ⟨_, -, -, -, hracks⟩
  by_cases hmem : node ∈ seen
  · -- A node that is met again adds nothing.
    have hsame := (hquota.offer_of_mem (hrec'.subset fun n hn => List.mem_append_left _
      (mem_within.1 hn).1) (mem_within.2 ⟨hmem, hdc⟩)).1
    rw [hadded, List.append_right_eq_self] at hsame
    rw [hsame] at hn
    cases hn
  · -- What a new node adds is the start of what its datacenter gains here.
    have hnew := hrec'.append_of_not_mem hmem
    have hwithin : within dc (seen ++ [node]) = within dc seen ++ [node] := by
      rw [within_append, within_singleton hdc]
    have hnot : node ∉ within dc seen := fun hin => hmem (mem_within.1 hin).1
    rw [hnew, hwithin] at hle hoffer
    rw [hextends.racks_eq, hextends.wanted_eq, hquota.take_orderSoFar_concat hnot hle, hadded,
      List.append_cancel_left_eq] at hoffer
    have hgained : n ∈ gained q.racks (within dc seen) node :=
      List.mem_of_mem_take (hoffer ▸ hn)
    rw [hnew] at hpre
    rcases hpre with ⟨rest, rfl⟩
    rw [List.append_assoc, List.singleton_append] at hnodup hracks ⊢
    rw [hracks] at hgained
    rcases takenAt_of_mem_gained hnodup hdc hgained with ⟨hndc, hat⟩
    exact ⟨hndc, hat, by rw [hnew, List.length_append, List.length_singleton]⟩

omit h hrec hnode hpre hdc in
/-- The count of pending quotas goes down with the quota that becomes met. -/
theorem pending_offer (hpending : s.pending = s.quotas.values.countP (!·.isMet)) {q' : Quota}
    (hextends : q'.Extends q) :
    (if !q.isMet && q'.isMet then s.pending - 1 else s.pending) =
      (s.quotas.modify dc fun _ => q').values.countP (!·.isMet) := by
  have hcount := SortedMap.countP_values_modify hq (fun _ => q') (!·.isMet)
  rw [← hpending] at hcount
  -- A quota that was met stays met, so the count never goes up.
  cases hbefore : q.isMet with
  | true =>
    have hafter := hextends.isMet hbefore
    simp only [hbefore, hafter, Bool.not_true, Bool.false_and, Bool.false_eq_true, if_false] at *
    omega
  | false =>
    cases hafter : q'.isMet with
    | true =>
      simp only [hbefore, hafter, Bool.not_true, Bool.not_false, Bool.true_and, if_true,
        Bool.false_eq_true, if_false] at *
      omega
    | false =>
      simp only [hbefore, hafter, Bool.not_false, Bool.true_and, if_true, Bool.false_eq_true,
        if_false] at *
      omega

include hnodup in
/-- Behind the node the choice is on the track in all datacenters. -/
theorem offer_offered : Tracks factors walk (s.offer node) (append seen node) := by
  have hsame := h.offer_sameGain hrec hnode hpre hdc hq
  have hquota := h.quota_offer hrec hnode hpre hdc hq
  have hextends := q.offer_extends (within dc s.replicas) node
  rcases hsame.gain with ⟨added, hreplicas, hown, -⟩
  have hgain (n : Node) (hn : n ∈ added) :=
    h.takenAt_of_gain hrec hnodup hnode hpre hdc hq hown hn
  rcases h.limits_of_quota hq with ⟨factor, hfactor, -⟩
  -- From here on only what is known of the new quota and of the nodes gained matters.
  rw [offer_of_quota hdc hq, hsame.quota_eq, hreplicas]
  generalize (q.offer (within dc s.replicas) node).1 = q' at *
  rw [hown] at hquota
  exact {
    limits_eq := fun other => by
      by_cases heq : other = dc
      · rw [heq, SortedMap.get?_modify_self, ← h.limits_eq dc, hq]
        exact congrArg some hextends.limits_eq
      · rw [SortedMap.get?_modify_of_ne _ heq]
        exact h.limits_eq other
    quota := fun other r hr => by
      by_cases heq : other = dc
      · rw [heq, SortedMap.get?_modify_self, hq, Option.map_some, Option.some.injEq] at hr
        rw [heq, ← hr, within_append, within_eq_self fun n hn => (hgain n hn).1]
        exact hquota
      · -- The quota of another datacenter sees neither the node nor what comes with it.
        rw [SortedMap.get?_modify_of_ne _ heq] at hr
        have hother (n : Node) (hn : n.datacenter = some dc) : n.datacenter ≠ some other :=
          fun hsome => heq (Option.some.inj (hsome.symm.trans hn))
        rw [within_append, within_eq_nil fun n hn => hother n (hgain n hn).1, List.append_nil,
          within_append_of_ne (hother node hdc)]
        exact h.quota other r hr
    replicas_subset := List.append_subset.2
      ⟨List.Subset.trans h.replicas_subset (subset_append seen node), fun _ hn =>
        (mem_within.1 (hquota.own_subset (List.mem_append_right _ hn))).1⟩
    configured := fun n hn => (List.mem_append.1 hn).elim (h.configured n) fun hn =>
      ⟨dc, (hgain n hn).1, by rw [hfactor, Option.isSome_some]⟩
    pending_eq := pending_offer hq h.pending_eq hextends
    takenAt_lt := fun n hn => by
      rcases List.mem_append.1 hn with hn | hn
      · exact Nat.lt_of_lt_of_le (h.takenAt_lt n hn) (length_le_append seen node)
      · rcases hgain n hn with ⟨-, hat, hlen⟩
        omega
    ordered := by
      refine List.pairwise_append.2 ⟨h.ordered, ?_, fun a ha b hb => .inl ?_⟩
      · -- The nodes gained share the position of the node offered.
        refine List.pairwise_of_forall_mem_list fun a ha b hb => .inr ?_
        rw [(hgain a ha).1, (hgain b hb).1, (hgain a ha).2.1, (hgain b hb).2.1]
        exact ⟨rfl, rfl⟩
      · rw [(hgain b hb).2.1]
        exact h.takenAt_lt a ha }

end Offered

/-- Every offer on the walk keeps the choice on the track. -/
theorem offer (h : Tracks factors walk s seen) (hrec : OneRecord walk) (hnodup : walk.Nodup)
    (hnode : node ∈ walk) (hpre : append seen node <+: walk) :
    Tracks factors walk (s.offer node) (append seen node) := by
  by_cases hquota : ∃ dc q, node.datacenter = some dc ∧ s.quotas.get? dc = some q
  · rcases hquota with ⟨dc, q, hdc, hq⟩
    exact h.offer_offered hrec hnodup hnode hpre hdc hq
  · refine h.offer_ignored fun dc hdc => Option.eq_none_iff_forall_ne_some.2 fun q hq => ?_
    exact hquota ⟨dc, q, hdc, hq⟩

/-- The choice is on the track behind any part of the walk. -/
theorem foldl_offer {done rest : List Node} (hrec : OneRecord (done ++ rest))
    (h : Tracks factors (distinct (done ++ rest)) s []) :
    Tracks factors (distinct (done ++ rest)) (done.foldl Selection.offer s) (distinct done) := by
  -- The whole walk stays fixed while more of it is done.
  induction done using List.reverseRecOn generalizing rest with
  | nil => exact h
  | append_singleton done node ih =>
    rw [List.append_assoc] at h hrec
    have hpre : distinct (done ++ [node]) <+: distinct (done ++ [node] ++ rest) :=
      distinct_prefix _ _
    rw [List.append_assoc] at hpre ⊢
    rw [List.foldl_append, distinct_concat] at *
    exact (ih hrec h).offer hrec.distinct (nodup_distinct _)
      ((mem_distinct hrec).2 (by simp)) hpre

/-- What has been chosen when a number of nodes were offered. -/
theorem foldl_take {nodes : List Node} (hrec : OneRecord nodes)
    (h : Tracks factors (distinct nodes) s []) (count : Nat) :
    Tracks factors (distinct nodes) ((nodes.take count).foldl Selection.offer s)
      (distinct (nodes.take count)) := by
  rw [← List.take_append_drop count nodes] at h hrec
  have hrun := h.foldl_offer hrec
  rw [List.take_append_drop] at hrun
  exact hrun

/-! ### The end of the walk -/

/-- Nothing is pending exactly if all quotas are met. -/
theorem pending_eq_zero_iff (h : Tracks factors walk s seen) :
    s.pending = 0 ↔ ∀ dc q, s.quotas.get? dc = some q → q.isMet = true := by
  rw [h.pending_eq, List.countP_eq_zero]
  constructor
  · intro hall dc q hq
    simpa using hall q (SortedMap.mem_values_iff.2 ⟨dc, hq⟩)
  · intro hall q hmem
    rcases SortedMap.mem_values_iff.1 hmem with ⟨dc, hq⟩
    simp [hall dc q hq]

/-- Behind the last node, and as soon as nothing is pending, every datacenter has got its share. -/
theorem within_replicas (h : Tracks factors walk s seen) (hnodup : walk.Nodup)
    (hpre : seen <+: walk) (hend : seen = walk ∨ s.pending = 0) {dc : String} {factor : Factor}
    (hfactor : factors.get? dc = some factor) :
    within dc s.replicas = (rackOrder (within dc walk)).take factor.full := by
  rcases h.quota_of_factor hfactor with ⟨q, hq, hwanted⟩
  rcases h.limits_of_quota hq with ⟨_, -, -, htarget, hracks⟩
  have hown := (h.quota dc q hq).own_eq
  have horder : orderSoFar q.racks (within dc walk) = rackOrder (within dc walk) :=
    orderSoFar_of_le (Nat.le_of_eq hracks)
  rcases hend with rfl | hpending
  · -- The walk is over, so the order so far is the whole one.
    rw [hown, horder, hwanted]
  · have hmet : q.target ≤ q.accepted :=
      of_decide_eq_true (h.pending_eq_zero_iff.1 hpending dc q hq)
    rw [(h.quota dc q hq).accepted_eq, htarget] at hmet
    rcases hpre with ⟨rest, rfl⟩
    -- What was chosen is the start of the share, and as long as the whole.
    have hstart : orderSoFar q.racks (within dc seen) <+: rackOrder (within dc (seen ++ rest)) := by
      rw [← horder, within_append]
      refine orderSoFar_prefix ?_ ?_
      · rw [← within_append]
        exact hnodup.filter _
      · rw [← within_append]
        exact Nat.le_of_eq hracks.symm
    rw [← hwanted]
    refine List.IsPrefix.eq_of_length_le ?_ ?_
    · rw [hown]
      exact hstart.take q.wanted
    · rw [List.length_take, (rackOrder_perm _).length_eq]
      exact hmet

end Tracks

/-! ### Breaking off -/

/-- The nodes are offered one by one up to the first point at which nothing is pending. -/
theorem exists_stop (s : Selection) (nodes : List Node) :
    ∃ stop ≤ nodes.length, s.offerAll nodes = (nodes.take stop).foldl offer s ∧
      (∀ count < stop, ((nodes.take count).foldl offer s).pending ≠ 0) ∧
      (stop < nodes.length → ((nodes.take stop).foldl offer s).pending = 0) := by
  -- On the nodes still to come, from any state: the count is looked at before each offer.
  induction nodes generalizing s with
  | nil => exact ⟨0, Nat.le_refl _, rfl, nofun, nofun⟩
  | cons node rest ih =>
    by_cases hpending : s.pending = 0
    · refine ⟨0, Nat.zero_le _, ?_, nofun, fun _ => hpending⟩
      rw [offerAll, if_pos hpending]
      rfl
    · obtain ⟨stop, hle, hrun, hbefore, hend⟩ := ih (s.offer node)
      refine ⟨stop + 1, Nat.succ_le_succ hle, ?_, ?_, fun hlt => hend (Nat.lt_of_succ_lt_succ hlt)⟩
      · rw [offerAll, if_neg hpending, hrun]
        rfl
      · intro count hcount
        cases count with
        | zero => exact hpending
        | succ count => exact hbefore count (Nat.lt_of_succ_lt_succ hcount)

theorem start_tracks {factors : SortedMap String Factor} {quotas : SortedMap String Quota}
    {walk : List Node}
    (h : ∀ dc, quotas.get? dc = (factors.get? dc).map fun factor =>
      { wanted := factor.full
        target := min factor.full (within dc walk).length
        racks := (racks (within dc walk)).length }) :
    Tracks factors walk (start quotas) [] where
  limits_eq dc := by
    change (quotas.get? dc).map _ = _
    rw [h dc, Option.map_map]
    rfl
  quota dc q hq := by
    rcases Option.map_eq_some_iff.1 ((h dc).symm.trans hq) with ⟨factor, -, rfl⟩
    exact .start ..
  replicas_subset := List.Subset.refl _
  configured _ hn := absurd hn List.not_mem_nil
  pending_eq := rfl
  takenAt_lt _ hn := absurd hn List.not_mem_nil
  ordered := .nil

/-- What is chosen on a walk, however soon it is broken off. -/
theorem offerAll_tracks {factors : SortedMap String Factor} {s : Selection} {nodes : List Node}
    (hrec : OneRecord nodes) (h : Tracks factors (distinct nodes) s []) :
    ∃ seen, seen <+: distinct nodes ∧ Tracks factors (distinct nodes) (s.offerAll nodes) seen ∧
      (seen = distinct nodes ∨ (s.offerAll nodes).pending = 0) := by
  obtain ⟨stop, hle, hrun, -, hend⟩ := s.exists_stop nodes
  rw [hrun]
  refine ⟨_, prefix_distinct_take nodes stop, h.foldl_take hrec stop, ?_⟩
  rcases Nat.lt_or_eq_of_le hle with hlt | heq
  · exact .inr (hend hlt)
  · exact .inl (by rw [heq, List.take_length])

end Selection

end TokenRing
