import TokenRing.Proofs.Placement.NetworkTopology

/-!
# Warnings of a placement

Placing replicas by datacenter warns once of every datacenter that has no node, and once of every
datacenter that has fewer nodes than its factor asks for. A datacenter gets the same number of
replicas for every token, so the token at which a shortfall is met first does not matter.
-/

namespace TokenRing

open Node

/-! ### The first entry of each key -/

section FirstOfKey

variable {κ ν : Type} [DecidableEq κ]

/-- Behind an entry only those with other keys are gone through. -/
theorem eraseDupsBy_fst_subset (entries : List (κ × ν)) :
    (entries.eraseDupsBy fun a b => a.1 = b.1) ⊆ entries := by
  cases entries with
  | nil => simp
  | cons e rest =>
    rw [List.eraseDupsBy_cons]
    apply List.cons_subset_cons
    exact List.Subset.trans (eraseDupsBy_fst_subset _) (List.filter_subset_self rest)
termination_by entries.length
decreasing_by exact Nat.lt_succ_of_le (List.length_filter_le _ _)

theorem map_fst_eraseDupsBy (entries : List (κ × ν)) :
    (entries.eraseDupsBy fun a b => a.1 = b.1).map (·.1) = (entries.map (·.1)).eraseDups := by
  cases entries with
  | nil => rfl
  | cons e rest =>
    rw [List.eraseDupsBy_cons, List.map_cons, map_fst_eraseDupsBy, List.map_cons,
      List.eraseDups_cons, List.filter_map]
    congr 3
    apply List.filter_congr
    intro b _
    simp [beq_eq_decide]
termination_by entries.length
decreasing_by exact Nat.lt_succ_of_le (List.length_filter_le _ _)

theorem nodup_eraseDups (keys : List κ) : keys.eraseDups.Nodup := by
  induction keys using List.reverseRecOn with
  | nil => exact .nil
  | append_singleton keys k ih =>
    rw [eraseDups_concat]
    split
    · exact ih
    · next hnew =>
      rw [← List.concat_eq_append]
      apply ih.concat
      rwa [List.mem_eraseDups]

end FirstOfKey

/-! ### Shortfalls -/

theorem Strategy.lt_fullReplicasIn_iff {factors : SortedMap String Factor} {dc : String} {n : Nat} :
    n < fullReplicasIn factors dc ↔ ∃ factor, factors.get? dc = some factor ∧ n < factor.full := by
  unfold fullReplicasIn
  cases factors.get? dc <;> simp

namespace Ring

variable {τ : Type} [Token τ] (ring : Ring τ) (factors : SortedMap String Factor)

/-- On every walk a datacenter gets what it wants or all that it has. -/
theorem quota_selectionFrom {dc : String} {q : Quota} {index : Nat}
    (hq : (ring.selectionFrom factors index).quotas.get? dc = some q) :
    q.wanted = Strategy.fullReplicasIn factors dc ∧
      q.accepted = min (Strategy.fullReplicasIn factors dc) (ring.nodesIn dc).length := by
  obtain ⟨seen, -, htracks, -⟩ := ring.selectionFrom_tracks factors index
  obtain ⟨factor, hfactor, hwanted, -⟩ := htracks.limits_of_quota hq
  constructor
  · rw [hwanted, Strategy.fullReplicasIn, hfactor, Option.map_some, Option.getD_some]
  · rw [(htracks.quota dc q hq).accepted_eq, ring.within_selectionFrom, List.length_take,
      (rackOrder_perm _).length_eq, (ring.within_nodesFrom_perm dc index).length_eq]

/-- The numbers do not depend on the token. -/
theorem mem_shortfalls {dc : String} {q : Quota} {index : Nat}
    (h : (dc, q) ∈ (ring.selectionFrom factors index).shortfalls) :
    q.accepted = (ring.nodesIn dc).length ∧ q.wanted = Strategy.fullReplicasIn factors dc ∧
      (ring.nodesIn dc).length < Strategy.fullReplicasIn factors dc := by
  obtain ⟨hmem, hlt⟩ := List.mem_filter.1 h
  have hquota := ring.quota_selectionFrom factors (SortedMap.get?_eq_some_iff.2 hmem)
  have hlt := of_decide_eq_true hlt
  omega

/-- A datacenter with too few nodes falls short at every token. -/
theorem exists_mem_shortfalls {dc : String}
    (h : (ring.nodesIn dc).length < Strategy.fullReplicasIn factors dc) (index : Nat) :
    ∃ q, (dc, q) ∈ (ring.selectionFrom factors index).shortfalls := by
  obtain ⟨seen, -, htracks, -⟩ := ring.selectionFrom_tracks factors index
  obtain ⟨factor, hfactor, -⟩ := Strategy.lt_fullReplicasIn_iff.1 h
  obtain ⟨q, hq, -⟩ := htracks.quota_of_factor hfactor
  have hquota := ring.quota_selectionFrom factors hq
  refine ⟨q, List.mem_filter.2 ⟨SortedMap.get?_eq_some_iff.1 hq, decide_eq_true ?_⟩⟩
  show q.accepted < q.wanted
  omega

theorem mem_allShortfalls_iff {a : String × Quota} :
    a ∈ (ring.selections factors).values.flatMap Selection.shortfalls ↔
      ∃ i < ring.size, a ∈ (ring.selectionFrom factors i).shortfalls := by
  rw [selections, values_tabulate]
  simp [selectionFrom]

def shortfallReport (dc : String) : Event :=
  .underReplicated dc (ring.nodesIn dc).length (Strategy.fullReplicasIn factors dc)

/-- Of each datacenter some shortfall is reported, and whichever it is, the report is the same. -/
theorem underReplicated_eq :
    underReplicated (ring.selections factors).values =
      (((ring.selections factors).values.flatMap Selection.shortfalls).map (·.1)).eraseDups.map
        (ring.shortfallReport factors) := by
  rw [underReplicated, ← map_fst_eraseDupsBy, List.map_map]
  apply List.map_congr_left
  intro a ha
  obtain ⟨i, -, hshort⟩ := (ring.mem_allShortfalls_iff factors).1 (eraseDupsBy_fst_subset _ ha)
  obtain ⟨haccepted, hwanted, -⟩ := ring.mem_shortfalls factors hshort
  show Event.underReplicated a.1 a.2.accepted a.2.wanted = _
  rw [haccepted, hwanted]
  rfl

/-- A datacenter is reported once, however many tokens it falls short at. -/
theorem nodup_underReplicated : (underReplicated (ring.selections factors).values).Nodup := by
  rw [underReplicated_eq]
  apply (nodup_eraseDups _).map
  intro dc dc' heq
  injection heq

theorem eq_shortfallReport_iff {e : Event} {dc : String} :
    ((ring.nodesIn dc).length < Strategy.fullReplicasIn factors dc ∧
      e = ring.shortfallReport factors dc) ↔
    ∃ factor, factors.get? dc = some factor ∧ (ring.nodesIn dc).length < factor.full ∧
      e = .underReplicated dc (ring.nodesIn dc).length factor.full := by
  unfold shortfallReport Strategy.fullReplicasIn
  cases factors.get? dc <;> simp

/-- The shortfalls reported are those of the datacenters with too few nodes. -/
theorem mem_underReplicated_iff {e : Event} :
    e ∈ underReplicated (ring.selections factors).values ↔ ring.isEmpty = false ∧
      ∃ dc, (ring.nodesIn dc).length < Strategy.fullReplicasIn factors dc ∧
        e = ring.shortfallReport factors dc := by
  simp only [underReplicated_eq, List.mem_map, List.mem_eraseDups, mem_allShortfalls_iff]
  constructor
  · rintro ⟨dc, ⟨⟨dc', q⟩, ⟨i, hi, hshort⟩, rfl⟩, rfl⟩
    exact ⟨ring.isEmpty_eq_false_of_lt hi, dc', (ring.mem_shortfalls factors hshort).2.2, rfl⟩
  · rintro ⟨hempty, dc, hlt, rfl⟩
    obtain ⟨q, hshort⟩ := ring.exists_mem_shortfalls factors hlt 0
    exact ⟨dc, ⟨(dc, q), ⟨0, ring.size_pos_iff.2 hempty, hshort⟩, rfl⟩, rfl⟩

theorem nodesIn_eq_nil_iff {dc : String} :
    ring.nodesIn dc = [] ↔ ∀ n ∈ ring.owners, n.datacenter ≠ some dc := by
  simp only [nodesIn, List.filter_eq_nil_iff, decide_eq_true_eq, nodes,
    mem_distinct ring.oneRecord_owners, ne_eq]

/-- The datacenters reported as absent have a factor and no node. -/
theorem mem_absentReports_iff {e : Event} :
    e ∈ (ring.absentDatacenters factors).map .absentDatacenter ↔ ring.isEmpty = false ∧
      ∃ dc ∈ factors.keys, (∀ n ∈ ring.owners, n.datacenter ≠ some dc) ∧
        e = .absentDatacenter dc := by
  unfold absentDatacenters
  cases ring.isEmpty with
  | true => simp
  | false => simp [nodesIn_eq_nil_iff, and_assoc, eq_comm (b := e)]

theorem nodup_absentReports :
    ((ring.absentDatacenters factors).map Event.absentDatacenter).Nodup := by
  have hkeys : (ring.absentDatacenters factors).Nodup := by
    unfold absentDatacenters
    split
    · exact .nil
    · exact factors.nodup_keys.filter _
  apply hkeys.map
  intro dc dc' heq
  injection heq

/-- The warnings of a placement are the reports of both kinds. -/
theorem filter_isWarning_place :
    ((Strategy.networkTopology factors).place ring).events.filter Event.isWarning =
      (ring.absentDatacenters factors).map .absentDatacenter ++
        underReplicated (ring.selections factors).values := by
  show List.filter _ ((_ ++ _) ++ [_]) = _
  rw [List.filter_append, List.filter_append, List.filter_eq_self.2, List.filter_eq_self.2,
    List.filter_singleton]
  · exact List.append_nil _
  · intro e he
    obtain ⟨a, -, rfl⟩ := List.mem_map.1 he
    rfl
  · intro e he
    obtain ⟨dc, -, rfl⟩ := List.mem_map.1 he
    rfl

end Ring

/-! ### Main result -/

/-- What a placement by datacenter warns of: nothing on an empty ring, and otherwise, once each, of
the datacenters with a factor that label no node of the ring, and of those with fewer nodes than
full replicas, with both numbers. -/
theorem warnings_networkTopology {τ : Type} [Token τ] (ring : Ring τ)
    (factors : SortedMap String Factor) :
    (((Strategy.networkTopology factors).place ring).events.filter Event.isWarning).Nodup ∧
    ∀ e, e ∈ ((Strategy.networkTopology factors).place ring).events.filter Event.isWarning ↔
      ring.isEmpty = false ∧
        ((∃ dc ∈ factors.keys, (∀ n ∈ ring.owners, n.datacenter ≠ some dc) ∧
          e = .absentDatacenter dc) ∨
        ∃ dc factor, factors.get? dc = some factor ∧ (ring.nodesIn dc).length < factor.full ∧
          e = .underReplicated dc (ring.nodesIn dc).length factor.full) := by
  rw [ring.filter_isWarning_place]
  constructor
  · apply List.nodup_append.2
    refine ⟨ring.nodup_absentReports factors, ring.nodup_underReplicated factors, ?_⟩
    -- A report of one kind is none of the other.
    intro e he e' he' heq
    obtain ⟨dc, -, rfl⟩ := List.mem_map.1 he
    obtain ⟨-, dc', -, rfl⟩ := (ring.mem_underReplicated_iff factors).1 he'
    cases heq
  · intro e
    rw [List.mem_append, ring.mem_absentReports_iff, ring.mem_underReplicated_iff, ← and_or_left]
    simp only [ring.eq_shortfallReport_iff]

end TokenRing
