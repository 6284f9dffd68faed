import TokenRing.Proofs.Placement.Quota
import TokenRing.Proofs.Placement.RackProgress

/-!
# What a quota holds

A quota that was offered some nodes of its datacenter, with repetitions, has taken the first
`wanted` of them in rack order. `Quota.Tracks` is the invariant behind this, and one offer keeps it.
-/

namespace TokenRing.Quota

open Node

/-! ### The invariant -/

/-- A quota that took `own` after it was offered the nodes of `seen`. -/
structure Tracks (q : Quota) (own seen : List Node) : Prop where
  own_eq : own = (orderSoFar q.racks seen).take q.wanted
  accepted_eq : q.accepted = own.length
  used_eq : q.used = Node.racks own
  skipped_subset : q.skipped ⊆ seen
  skipped_pairwise : q.skipped.Pairwise (·.id ≠ ·.id)
  skipped_eq_nil : q.racks ≤ q.used.length → q.skipped = []
  /-- A node that was taken may be set aside when it is met again. -/
  skipped_eq : q.accepted < q.wanted → q.used.length < q.racks →
    q.skipped.filter (· ∉ own) = seen.filter (!leadsRack seen ·)

namespace Tracks

variable {q : Quota} {own seen : List Node} {node : Node}

theorem start (wanted target racks : Nat) : Tracks { wanted, target, racks } [] [] where
  own_eq := by simp [orderSoFar, rackOrder, lastRackAt?, Node.racks]
  accepted_eq := rfl
  used_eq := rfl
  skipped_subset := List.Subset.refl _
  skipped_pairwise := .nil
  skipped_eq_nil _ := rfl
  skipped_eq _ _ := rfl

theorem own_subset (h : Tracks q own seen) : own ⊆ seen := by
  rw [h.own_eq]
  exact fun n hn => orderSoFar_subset _ _ (List.mem_of_mem_take hn)

/-- Until the quota is full, the nodes taken are those in rack order so far. -/
theorem own_eq_orderSoFar (h : Tracks q own seen) (hlt : q.accepted < q.wanted) :
    own = orderSoFar q.racks seen := by
  have hlen := congrArg List.length h.own_eq
  rw [List.length_take, ← h.accepted_eq] at hlen
  -- Less than `wanted` were taken, so nothing was cut off.
  rw [h.own_eq, List.take_of_length_le (by omega)]

/-- Until the quota is full, the racks used are those that were seen. -/
theorem mem_used (h : Tracks q own seen) (hlt : q.accepted < q.wanted) {rack : String} :
    rack ∈ q.used ↔ rack ∈ Node.racks seen := by
  rw [h.used_eq, h.own_eq_orderSoFar hlt, mem_racks_orderSoFar]

theorem length_used (h : Tracks q own seen) (hlt : q.accepted < q.wanted) :
    q.used.length = (Node.racks seen).length := by
  refine List.Perm.length_eq ((List.perm_ext_iff_of_nodup ?_ (nodup_racks seen)).2 fun rack =>
    h.mem_used hlt)
  rw [h.used_eq]
  exact nodup_racks own

/-- No node that was met is lost while more replicas are wanted. -/
theorem mem_own_or_skipped (h : Tracks q own seen) (hlt : q.accepted < q.wanted)
    (hnode : node ∈ seen) : node ∈ own ∨ node ∈ q.skipped := by
  have horder := h.own_eq_orderSoFar hlt
  have hlen := h.length_used hlt
  -- Up to the last rack the nodes that lead none are set aside, and behind it all are taken.
  by_cases hall : q.racks ≤ q.used.length
  · rw [horder, orderSoFar_of_le (by omega)]
    exact .inl ((rackOrder_perm seen).mem_iff.2 hnode)
  · have hopen := Nat.lt_of_not_le hall
    cases hleads : leadsRack seen node with
    | true =>
      rw [horder, orderSoFar_of_lt (by omega)]
      exact .inl (List.mem_filter.2 ⟨hnode, hleads⟩)
    | false =>
      have hwaits : node ∈ seen.filter (!leadsRack seen ·) :=
        List.mem_filter.2 ⟨hnode, by simp [hleads]⟩
      rw [← h.skipped_eq hlt hopen] at hwaits
      exact .inr (List.mem_filter.1 hwaits).1

/-- What the quota shall have taken when one more node was offered. -/
theorem take_orderSoFar_concat (h : Tracks q own seen) (hnode : node ∉ seen)
    (hle : (Node.racks (seen ++ [node])).length ≤ q.racks) :
    (orderSoFar q.racks (seen ++ [node])).take q.wanted =
      own ++ (gained q.racks seen node).take (q.wanted - q.accepted) := by
  rw [orderSoFar_concat hnode hle, List.take_append, ← h.own_eq, h.accepted_eq]
  have hlen := congrArg List.length h.own_eq
  rw [List.length_take] at hlen
  congr 2
  omega

/-! ### Nodes that are met again -/

/-- Setting a node aside that was seen before changes nothing that counts. -/
theorem skip_of_mem (h : Tracks q own seen) (hrec : OneRecord seen) (hnode : node ∈ seen)
    (hlt : q.accepted < q.wanted) (hopen : q.used.length < q.racks) :
    Tracks (q.skip node) own seen where
  own_eq := h.own_eq
  accepted_eq := h.accepted_eq
  used_eq := h.used_eq
  skipped_subset n hn := (mem_append_self hn).elim (h.skipped_subset ·) (· ▸ hnode)
  skipped_pairwise := pairwise_append node h.skipped_pairwise
  skipped_eq_nil hle := absurd hle (Nat.not_le.2 hopen)
  skipped_eq _ _ := by
    have hwaits := h.skipped_eq hlt hopen
    change (append q.skipped node).filter (· ∉ own) = _
    by_cases hmem : node ∈ q.skipped
    · rw [append_of_mem hmem, hwaits]
    · have hids : ∀ n ∈ q.skipped, n.id ≠ node.id := fun n hn hid =>
        hmem (hrec n (h.skipped_subset hn) node hnode hid ▸ hn)
      -- A node that is not set aside yet is one of those taken.
      have hown : node ∈ own := (h.mem_own_or_skipped hlt hnode).resolve_right hmem
      rw [append_of_forall_ne hids, List.filter_append, hwaits,
        List.filter_cons_of_neg (by simp [hown]), List.filter_nil, List.append_nil]

/-- A node that was seen before is not taken again. -/
theorem offer_of_mem (h : Tracks q own seen) (hrec : OneRecord seen) (hnode : node ∈ seen) :
    (q.offer own node).2 = own ∧ Tracks (q.offer own node).1 own seen := by
  have haccept (hown : node ∈ own) : q.accept own node = (q, own) :=
    accept_of_any (any_id_eq_true.2 ⟨node, hown, rfl⟩)
  by_cases hfull : q.wanted ≤ q.accepted
  · rw [offer_of_full hfull]
    exact ⟨rfl, h⟩
  have hlt := Nat.lt_of_not_le hfull
  have horder := h.own_eq_orderSoFar hlt
  by_cases hall : q.racks ≤ q.used.length
  · -- Behind the last rack every node was taken that was met.
    have hown : node ∈ own :=
      (h.mem_own_or_skipped hlt hnode).resolve_right (by simp [h.skipped_eq_nil hall])
    rw [offer_of_exhausted hlt hall, haccept hown]
    exact ⟨rfl, h⟩
  have hopen := Nat.lt_of_not_le hall
  cases hrack : node.rack with
  | none =>
    -- A node without a rack waits for nothing, so it was taken when it was met.
    have hown : node ∈ own := by
      rw [horder, orderSoFar_of_lt (by rwa [← h.length_used hlt])]
      exact List.mem_filter.2 ⟨hnode, leadsRack_of_rack_eq_none hrack⟩
    rw [offer_of_no_rack hlt hopen hrack, haccept hown]
    exact ⟨rfl, h⟩
  | some rack =>
    -- The rack was used when the node was met at the latest.
    have hused : rack ∈ q.used := (h.mem_used hlt).2 (mem_racks.2 ⟨node, hnode, hrack⟩)
    rw [offer_of_used_rack hlt hopen hrack hused]
    exact ⟨rfl, h.skip_of_mem hrec hnode hlt hopen⟩

/-! ### Nodes that are met for the first time -/

/-- A full quota tracks further nodes without a change. -/
theorem concat_of_full (h : Tracks q own seen) (hnode : node ∉ seen)
    (hle : (Node.racks (seen ++ [node])).length ≤ q.racks) (hfull : q.wanted ≤ q.accepted) :
    Tracks q own (seen ++ [node]) where
  own_eq := by
    rw [h.take_orderSoFar_concat hnode hle, Nat.sub_eq_zero_of_le hfull, List.take_zero,
      List.append_nil]
  accepted_eq := h.accepted_eq
  used_eq := h.used_eq
  skipped_subset := List.Subset.trans h.skipped_subset (List.subset_append_left ..)
  skipped_pairwise := h.skipped_pairwise
  skipped_eq_nil := h.skipped_eq_nil
  skipped_eq hlt := absurd hfull (Nat.not_le.2 hlt)

/-- With the last rack come the nodes that wait, with any other one the node alone. -/
theorem gained_of_new_rack (h : Tracks q own seen) (hlt : q.accepted < q.wanted)
    (hopen : q.used.length < q.racks) {rack : String} (hrack : node.rack = some rack)
    (hnew : rack ∉ q.used) :
    gained q.racks seen node =
      if q.racks ≤ q.used.length + 1 then node :: seen.filter (!leadsRack seen ·) else [node] := by
  rw [gained, ← h.length_used hlt, if_neg (Nat.not_le.2 hopen), hrack]
  exact if_neg (mt (h.mem_used hlt).2 hnew)

section New

variable (h : Tracks q own seen) (hrec : OneRecord (seen ++ [node])) (hnode : node ∉ seen)
  (hle : (Node.racks (seen ++ [node])).length ≤ q.racks) (hlt : q.accepted < q.wanted)
include h hrec hnode

theorem accept_of_new :
    q.accept own node = ({ q with accepted := q.accepted + 1 }, own ++ [node]) := by
  apply accept_of_not_any
  rw [hrec.any_id_eq (List.Subset.trans h.own_subset (List.subset_append_left ..)) (by simp)]
  exact decide_eq_false fun hown => hnode (h.own_subset hown)

theorem skipped_of_new {n : Node} (hn : n ∈ q.skipped) :
    (own ++ [node]).any (·.id = n.id) = decide (n ∈ own) := by
  have hseen := h.skipped_subset hn
  have hsub : own ++ [node] ⊆ seen ++ [node] :=
    List.append_subset.2 ⟨fun n hn => List.mem_append_left _ (h.own_subset hn),
      List.subset_append_right ..⟩
  rw [hrec.any_id_eq hsub (List.mem_append_left _ hseen), decide_eq_decide, List.mem_append,
    List.mem_singleton]
  exact or_iff_left fun heq => hnode (heq ▸ hseen)

omit hrec in
include hle hlt in
/-- Only the new node is taken. -/
theorem concat_taken {used : List String} (hgain : gained q.racks seen node = [node])
    (hused : used = Node.racks (own ++ [node]))
    (hnil : q.racks ≤ used.length → q.skipped = [])
    (hleads : used.length < q.racks →
      q.used.length < q.racks ∧ leadsRack (seen ++ [node]) node = true) :
    Tracks { q with accepted := q.accepted + 1, used } (own ++ [node]) (seen ++ [node]) where
  own_eq := by
    rw [h.take_orderSoFar_concat hnode hle, hgain, List.take_of_length_le]
    rw [List.length_singleton]
    omega
  accepted_eq := by simp [h.accepted_eq]
  used_eq := hused
  skipped_subset := List.Subset.trans h.skipped_subset (List.subset_append_left ..)
  skipped_pairwise := h.skipped_pairwise
  skipped_eq_nil := hnil
  skipped_eq _ hopen := by
    rcases hleads hopen with ⟨hopen', hnode'⟩
    -- The new node was not set aside, since it was not met before.
    have hsame : q.skipped.filter (· ∉ own ++ [node]) = q.skipped.filter (· ∉ own) :=
      List.filter_congr fun n hn => by
        have hne : n ≠ node := fun heq => hnode (heq ▸ h.skipped_subset hn)
        simp [hne]
    rw [hsame, h.skipped_eq hlt hopen', List.filter_append, filter_not_leadsRack_append,
      List.filter_cons_of_neg (by simp [hnode']), List.filter_nil, List.append_nil]

include hle hlt

/-- A node on a used rack waits for the last rack. -/
theorem concat_skipped (hopen : q.used.length < q.racks) {rack : String}
    (hrack : node.rack = some rack) (hold : rack ∈ q.used) :
    Tracks (q.skip node) own (seen ++ [node]) := by
  have hseen : rack ∈ Node.racks seen := (h.mem_used hlt).1 hold
  have hwaits : leadsRack (seen ++ [node]) node = false :=
    leadsRack_eq_false hnode hrack hseen [node]
  have hgain : gained q.racks seen node = [] := by
    rw [gained, if_neg (by rw [← h.length_used hlt]; omega), hrack]
    exact if_pos hseen
  -- A node set aside with its identifier would be the node itself, which was not met yet.
  have hids : ∀ n ∈ q.skipped, n.id ≠ node.id := by
    intro n hn hid
    have hseen := h.skipped_subset hn
    rw [hrec n (List.mem_append_left _ hseen) node (by simp) hid] at hseen
    exact hnode hseen
  have hskip : (q.skip node).skipped = q.skipped ++ [node] := append_of_forall_ne hids
  exact {
    own_eq := by
      change own = (orderSoFar q.racks (seen ++ [node])).take q.wanted
      rw [h.take_orderSoFar_concat hnode hle, hgain, List.take_nil, List.append_nil]
    accepted_eq := h.accepted_eq
    used_eq := h.used_eq
    skipped_subset := by
      rw [hskip]
      exact List.append_subset.2 ⟨fun n hn => List.mem_append_left _ (h.skipped_subset hn),
        List.subset_append_right ..⟩
    skipped_pairwise := pairwise_append node h.skipped_pairwise
    skipped_eq_nil := fun hall => absurd hall (Nat.not_le.2 hopen)
    skipped_eq := fun _ _ => by
      have hown : node ∉ own := fun hown => hnode (h.own_subset hown)
      rw [hskip, List.filter_append, h.skipped_eq hlt hopen, List.filter_append,
        filter_not_leadsRack_append]
      simp [hown, hwaits] }

omit hrec in
/-- The last rack lets the nodes follow that were set aside. -/
theorem concat_filled (hopen : q.used.length < q.racks) {rack : String}
    (hrack : node.rack = some rack) (hnew : rack ∉ q.used) (hlast : q.racks ≤ q.used.length + 1)
    {filled : List Node}
    (hfilled : filled = (seen.filter (!leadsRack seen ·)).take (q.wanted - (q.accepted + 1))) :
    Tracks
      { q with
        accepted := q.accepted + 1 + filled.length
        used := q.used ++ [rack]
        skipped := [] }
      (own ++ [node] ++ filled) (seen ++ [node]) where
  own_eq := by
    rw [h.take_orderSoFar_concat hnode hle, h.gained_of_new_rack hlt hopen hrack hnew,
      if_pos hlast, show q.wanted - q.accepted = q.wanted - (q.accepted + 1) + 1 by omega,
      List.take_succ_cons, ← hfilled, List.append_assoc, List.singleton_append]
  accepted_eq := by
    rw [List.length_append, List.length_append, List.length_singleton, ← h.accepted_eq]
  used_eq := by
    have hfresh : rack ∉ Node.racks own := by rwa [← h.used_eq]
    -- The nodes that follow bring no rack.
    have hseen : filled ⊆ seen := fun n hn => by
      rw [hfilled] at hn
      exact (List.mem_filter.1 (List.mem_of_mem_take hn)).1
    have hsub : Node.racks filled ⊆ Node.racks (own ++ [node]) := fun r hr => by
      rw [racks_concat_of_not_mem hrack hfresh, ← h.used_eq]
      exact List.mem_append_left _ ((h.mem_used hlt).2 (racks_subset hseen hr))
    rw [racks_append_of_subset hsub, racks_concat_of_not_mem hrack hfresh, h.used_eq]
  skipped_subset := List.nil_subset _
  skipped_pairwise := .nil
  skipped_eq_nil _ := rfl
  skipped_eq _ hopen' := by
    rw [List.length_append, List.length_singleton] at hopen'
    exact absurd hlast (Nat.not_le.2 hopen')

/-- A new node on a new rack is taken in rack order. -/
theorem acceptOnNewRack_of_new (hopen : q.used.length < q.racks) {rack : String}
    (hrack : node.rack = some rack) (hnew : rack ∉ q.used) :
    Tracks (q.acceptOnNewRack own node rack).1 (q.acceptOnNewRack own node rack).2
      (seen ++ [node]) := by
  have hracks : q.used ++ [rack] = Node.racks (own ++ [node]) := by
    rw [racks_concat_of_not_mem hrack (by rwa [← h.used_eq]), h.used_eq]
  have hgain := h.gained_of_new_rack hlt hopen hrack hnew
  unfold acceptOnNewRack
  rw [h.accept_of_new hrec hnode]
  dsimp only
  by_cases hlast : q.racks ≤ q.used.length + 1
  · -- Of the nodes set aside, those that were taken when they were first met are passed over.
    have hfilter : (q.skipped.filter fun n => !(own ++ [node]).any (·.id = n.id)) =
        seen.filter (!leadsRack seen ·) := by
      rw [← h.skipped_eq hlt hopen]
      exact List.filter_congr fun n hn => by rw [h.skipped_of_new hrec hnode hn, decide_not]
    rw [if_pos (racksExhausted_iff.2 (by simpa using hlast)), fill_eq h.skipped_pairwise]
    exact h.concat_filled hnode hle hlt hopen hrack hnew hlast (congrArg _ hfilter)
  · -- Some rack is still missing, so the nodes set aside go on waiting.
    rw [if_neg (mt racksExhausted_iff.1 (by simpa using hlast))]
    rw [if_neg hlast] at hgain
    refine h.concat_taken hnode hle hlt hgain hracks (fun hall => ?_) fun _ => ⟨hopen, ?_⟩
    · rw [List.length_append, List.length_singleton] at hall
      exact absurd hall hlast
    · exact leadsRack_of_not_mem_racks
        (rack_ne_of_mem_racks hrack (mt (h.mem_used hlt).2 hnew)) []

omit hlt in
/-- A new node is taken or set aside in rack order. -/
theorem offer_of_new :
    Tracks (q.offer own node).1 (q.offer own node).2 (seen ++ [node]) := by
  by_cases hfull : q.wanted ≤ q.accepted
  · rw [offer_of_full hfull]
    exact h.concat_of_full hnode hle hfull
  have hlt := Nat.lt_of_not_le hfull
  have hlen := h.length_used hlt
  by_cases hall : q.racks ≤ q.used.length
  · -- All racks are used, so the rack of the node is one of them.
    have hrack {rack : String} (hrack : node.rack = some rack) : rack ∈ Node.racks own := by
      have hmem : rack ∈ Node.racks (seen ++ [node]) := mem_racks.2 ⟨node, by simp, hrack⟩
      rw [← h.used_eq, h.mem_used hlt]
      exact mem_racks_of_length_le (List.subset_append_left seen [node]) (by omega) hmem
    have hgain : gained q.racks seen node = [node] := if_pos (by omega)
    have hused : q.used = Node.racks (own ++ [node]) := by
      rw [racks_concat_of_mem fun rack => hrack, h.used_eq]
    rw [offer_of_exhausted hlt hall, h.accept_of_new hrec hnode]
    exact h.concat_taken hnode hle hlt hgain hused (fun _ => h.skipped_eq_nil hall)
      fun hopen => absurd hall (Nat.not_le.2 hopen)
  have hopen := Nat.lt_of_not_le hall
  cases hrack : node.rack with
  | none =>
    have hgain : gained q.racks seen node = [node] := by
      rw [gained, if_neg (by omega), hrack]
    have hused : q.used = Node.racks (own ++ [node]) := by
      rw [racks_concat, hrack, h.used_eq]
    rw [offer_of_no_rack hlt hopen hrack, h.accept_of_new hrec hnode]
    exact h.concat_taken hnode hle hlt hgain hused (fun hall' => absurd hall' hall)
      fun _ => ⟨hopen, leadsRack_of_rack_eq_none hrack⟩
  | some rack =>
    by_cases hold : rack ∈ q.used
    · rw [offer_of_used_rack hlt hopen hrack hold]
      exact h.concat_skipped hrec hnode hle hlt hopen hrack hold
    · rw [offer_of_new_rack hlt hopen hrack hold]
      exact h.acceptOnNewRack_of_new hrec hnode hle hlt hopen hrack hold

end New

/-- Any offer keeps the quota on the track of the nodes seen. -/
theorem offer (h : Tracks q own seen) (hrec : OneRecord (seen ++ [node]))
    (hle : (Node.racks (append seen node)).length ≤ q.racks) :
    Tracks (q.offer own node).1 (q.offer own node).2 (append seen node) := by
  -- A node that is met again changes no replica, though it may be set aside.
  by_cases hmem : node ∈ seen
  · have hstep := h.offer_of_mem (hrec.subset (List.subset_append_left ..)) hmem
    rw [append_of_mem hmem, hstep.1]
    exact hstep.2
  · have hnew := hrec.append_of_not_mem hmem
    rw [hnew] at hle ⊢
    exact h.offer_of_new hrec hmem hle

end Tracks

end TokenRing.Quota
