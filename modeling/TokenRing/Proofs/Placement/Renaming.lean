import TokenRing.Proofs.Node.Renaming
import TokenRing.Proofs.Placement.Replicas

/-!
# Placement on renamed nodes

Placement looks at identifiers and labels through equality only. On a ring with renamed nodes every
strategy places the renamed replicas. The network topology strategy, which reads the labels, does so
when these are renamed consistently; to the others any labels are the same.
-/

namespace TokenRing

/-! ### Quotas -/

namespace Quota

def rename (r : Renaming) (rack : String → String) (q : Quota) : Quota :=
  { q with used := q.used.map rack, skipped := q.skipped.map r.node }

def renameBoth (r : Renaming) (rack : String → String) (s : Quota × List Node) : Quota × List Node :=
  (s.1.rename r rack, s.2.map r.node)

variable (r : Renaming) {rack : String → String}

theorem isMet_rename (q : Quota) : (q.rename r rack).isMet = q.isMet :=
  rfl

theorem racksExhausted_rename (q : Quota) :
    (q.rename r rack).racksExhausted = q.racksExhausted := by
  simp [racksExhausted, rename]

/-- Taking a node and renaming can be exchanged. -/
theorem accept_rename (q : Quota) (replicas : List Node) (node : Node) :
    (q.rename r rack).accept (replicas.map r.node) (r.node node) =
      renameBoth r rack (q.accept replicas node) := by
  rw [accept, r.any_id_map, accept]
  split
  · rfl
  · simp [renameBoth, rename]

/-- Filling a quota and renaming can be exchanged. -/
theorem fill_rename (q : Quota) (replicas nodes : List Node) :
    (q.rename r rack).fill (replicas.map r.node) (nodes.map r.node) =
      renameBoth r rack (q.fill replicas nodes) := by
  induction nodes generalizing q replicas with
  | nil => rfl
  | cons node rest ih =>
    rw [List.map_cons, fill, accept_rename, fill]
    by_cases hfull : q.wanted ≤ q.accepted
    · rw [if_pos hfull]
      exact if_pos hfull
    · rw [if_neg hfull]
      exact (if_neg hfull).trans (ih _ _)

/-- Lets the nodes set aside follow, once every rack is used. -/
def release (q : Quota) (replicas : List Node) : Quota × List Node :=
  if q.racksExhausted then { q with skipped := [] }.fill replicas q.skipped else (q, replicas)

/-- A node is taken on a new rack, and then those set aside may follow. -/
theorem acceptOnNewRack_eq (q : Quota) (replicas : List Node) (node : Node) (rack : String) :
    q.acceptOnNewRack replicas node rack =
      release { (q.accept replicas node).1 with used := (q.accept replicas node).1.used ++ [rack] }
        (q.accept replicas node).2 :=
  rfl

theorem release_rename (q : Quota) (replicas : List Node) :
    (q.rename r rack).release (replicas.map r.node) = renameBoth r rack (q.release replicas) := by
  unfold release
  rw [racksExhausted_rename]
  split
  · exact fill_rename r { q with skipped := [] } replicas q.skipped
  · rfl

theorem acceptOnNewRack_rename (q : Quota) (replicas : List Node) (node : Node) (name : String) :
    (q.rename r rack).acceptOnNewRack (replicas.map r.node) (r.node node) (rack name) =
      renameBoth r rack (q.acceptOnNewRack replicas node name) := by
  have hused (q : Quota) : { q.rename r rack with used := (q.rename r rack).used ++ [rack name] } =
      ({ q with used := q.used ++ [name] } : Quota).rename r rack := by
    simp [rename]
  rw [acceptOnNewRack_eq, accept_rename, acceptOnNewRack_eq]
  show release { Quota.rename r rack _ with used := (Quota.rename r rack _).used ++ [rack name] } _ = _
  rw [hused]
  exact release_rename r _ _

/-- Offering a node to a quota and renaming can be exchanged, if racks stay apart. -/
theorem offer_rename (hrack : Function.Injective rack) (q : Quota) (replicas : List Node)
    {node : Node} (hnode : (r.node node).rack = node.rack.map rack) :
    (q.rename r rack).offer (replicas.map r.node) (r.node node) =
      renameBoth r rack (q.offer replicas node) := by
  -- The counts are the same under the new names, and so is whether a rack is used.
  by_cases hfull : q.wanted ≤ q.accepted
  · rw [offer_of_full hfull]
    exact offer_of_full hfull
  have hlt : q.accepted < q.wanted := Nat.lt_of_not_le hfull
  have hlength : (q.rename r rack).used.length = q.used.length := List.length_map rack
  by_cases hall : q.racks ≤ q.used.length
  · rw [offer_of_exhausted hlt hall, ← accept_rename]
    exact offer_of_exhausted hlt (hlength ▸ hall)
  have hopen : q.used.length < q.racks := Nat.lt_of_not_le hall
  have hopen' : (q.rename r rack).used.length < (q.rename r rack).racks := hlength ▸ hopen
  cases hname : node.rack with
  | none =>
    rw [hname] at hnode
    rw [offer_of_no_rack hlt hopen hname, ← accept_rename]
    exact offer_of_no_rack hlt hopen' hnode
  | some name =>
    rw [hname] at hnode
    have hmem : rack name ∈ (q.rename r rack).used ↔ name ∈ q.used :=
      List.mem_map_of_injective hrack
    by_cases hold : name ∈ q.used
    · rw [offer_of_used_rack hlt hopen hname hold]
      rw [offer_of_used_rack (q := q.rename r rack) hlt hopen' hnode (hmem.2 hold)]
      simp [renameBoth, skip, rename, r.append_map]
    · rw [offer_of_new_rack hlt hopen hname hold, ← acceptOnNewRack_rename]
      exact offer_of_new_rack (q := q.rename r rack) hlt hopen' hnode (mt hmem.1 hold)

end Quota

/-! ### Selections -/

namespace Selection

def renameQuotas (r : Renaming) (labels : Labeling) (quotas : SortedMap String Quota) :
    SortedMap String Quota :=
  (quotas.mapValues fun dc q => q.rename r (labels.rack (some dc))).mapKeys labels.datacenter

def rename (r : Renaming) (labels : Labeling) (s : Selection) : Selection where
  quotas := renameQuotas r labels s.quotas
  replicas := s.replicas.map r.node
  pending := s.pending

variable (r : Renaming) (labels : Labeling)

theorem get?_renameQuotas (quotas : SortedMap String Quota) (dc : String) :
    (renameQuotas r labels quotas).get? (labels.datacenter dc) =
      (quotas.get? dc).map (·.rename r (labels.rack (some dc))) := by
  rw [renameQuotas, SortedMap.get?_mapKeys labels.datacenter_injective, SortedMap.get?_mapValues]

theorem modify_renameQuotas (quotas : SortedMap String Quota) (dc : String) (q : Quota) :
    (renameQuotas r labels quotas).modify (labels.datacenter dc)
        (fun _ => q.rename r (labels.rack (some dc))) =
      renameQuotas r labels (quotas.modify dc fun _ => q) := by
  rw [renameQuotas, SortedMap.modify_mapKeys labels.datacenter_injective, renameQuotas]
  congr 1
  apply SortedMap.ext
  simp only [SortedMap.modify, SortedMap.mapValues, List.map_map]
  apply List.map_congr_left
  intro e he
  by_cases h : e.1 = dc <;> simp [h]

theorem start_rename (quotas : SortedMap String Quota) :
    start (renameQuotas r labels quotas) = (start quotas).rename r labels := by
  have hperm := SortedMap.values_mapKeys_perm labels.datacenter_injective
    (quotas.mapValues fun dc q => q.rename r (labels.rack (some dc)))
  have hpending : (renameQuotas r labels quotas).values.countP (!·.isMet) =
      quotas.values.countP (!·.isMet) := by
    rw [renameQuotas, hperm.countP_eq, SortedMap.values, SortedMap.mapValues, List.map_map,
      List.countP_map, SortedMap.values, List.countP_map]
    rfl
  rw [start, hpending]
  rfl

variable {r labels} (hlabels : r.Follows labels)

include hlabels

theorem offer_rename (s : Selection) (node : Node) :
    (s.rename r labels).offer (r.node node) = (s.offer node).rename r labels := by
  have hnode := hlabels.datacenter_node node
  cases hdc : node.datacenter with
  | none =>
    rw [hdc] at hnode
    rw [offer, hnode, offer, hdc]
    rfl
  | some dc =>
    rw [hdc] at hnode
    have hrack := hlabels.rack_node hdc
    have hget := get?_renameQuotas r labels s.quotas dc
    cases hq : s.quotas.get? dc with
    | none =>
      rw [hq] at hget
      -- A datacenter without a quota has none under its new name.
      rw [offer_of_ignored (s := s.rename r labels), offer_of_ignored]
      · intro dc' hdc'
        rw [← Option.some.inj (hdc.symm.trans hdc'), hq]
      · intro dc' hdc'
        rw [← Option.some.inj (hnode.symm.trans hdc')]
        exact hget
    | some q =>
      rw [hq] at hget
      have hoffer := Quota.offer_rename r (labels.rack_injective dc) q s.replicas hrack
      rw [offer_of_quota (s := s.rename r labels) hnode hget, offer_of_quota hdc hq]
      show Selection.mk ((renameQuotas r labels s.quotas).modify _ _) _ _ = _
      rw [rename]
      simp only [hoffer, Quota.renameBoth, modify_renameQuotas, Quota.isMet_rename, rename]

/-- The whole choice and renaming can be exchanged. -/
theorem offerAll_rename (s : Selection) (nodes : List Node) :
    (s.rename r labels).offerAll (nodes.map r.node) = (s.offerAll nodes).rename r labels := by
  induction nodes generalizing s with
  | nil => rfl
  | cons node rest ih =>
    rw [List.map_cons, offerAll, offerAll, offer_rename hlabels, ih]
    show (if s.pending = 0 then _ else _) = _
    split
    · rfl
    · rfl

end Selection

/-! ### Rings -/

namespace Ring

variable {τ α : Type} [Token τ]

def rename (r : Renaming) (ring : Ring τ) : Ring τ where
  entries := ring.entries.map fun e => (e.1, r.node e.2)
  ascending := by
    rw [Array.toList_map]
    exact List.pairwise_map.2 ring.ascending
  one_record := by
    intro a ha b hb hid
    obtain ⟨e, he, rfl⟩ := Array.mem_map.1 ha
    obtain ⟨f, hf, rfl⟩ := Array.mem_map.1 hb
    exact congrArg r.node (ring.one_record e he f hf (r.id_node_eq_iff.1 hid))

variable (r : Renaming) (ring : Ring τ)

theorem tokens_rename : (ring.rename r).tokens = ring.tokens := by
  rw [tokens, rename, Array.toList_map, List.map_map]
  rfl

theorem owners_rename : (ring.rename r).owners = ring.owners.map r.node := by
  rw [owners, rename, Array.toList_map, List.map_map, owners, List.map_map]
  rfl

theorem size_rename : (ring.rename r).size = ring.size :=
  Array.size_map

theorem ownerAt?_rename (index : Nat) :
    (ring.rename r).ownerAt? index = (ring.ownerAt? index).map r.node := by
  rw [ownerAt?, entryAt?, size_rename, rename, Array.getElem?_map, ownerAt?, entryAt?,
    Option.map_map, Option.map_map]
  rfl

/-- The walk around the renamed ring meets the renamed owners. -/
theorem ownersFrom_rename (index : Nat) :
    (ring.rename r).ownersFrom index = (ring.ownersFrom index).map r.node := by
  rw [ownersFrom_eq_rotate, owners_rename, ownersFrom_eq_rotate, List.map_rotate]

theorem nodesFrom_rename (index : Nat) :
    (ring.rename r).nodesFrom index = (ring.nodesFrom index).map r.node := by
  rw [nodesFrom, ownersFrom_rename, r.distinct_map, nodesFrom]

theorem nodes_rename : (ring.rename r).nodes = ring.nodes.map r.node := by
  rw [nodes, owners_rename, r.distinct_map, nodes]

theorem tabulate_rename (f : Nat → α) : (ring.rename r).tabulate f = ring.tabulate f := by
  apply SortedMap.ext
  rw [tabulate, tabulate]
  dsimp only
  rw [tokens_rename]

section Labels

variable {r} {labels : Labeling} (hlabels : r.Follows labels)

include hlabels

theorem nodesIn_rename (dc : String) :
    (ring.rename r).nodesIn (labels.datacenter dc) = (ring.nodesIn dc).map r.node := by
  rw [nodesIn, nodes_rename, List.filter_map, nodesIn]
  simp only [Function.comp_def, hlabels.datacenter_eq_iff]

theorem racksIn_rename (dc : String) :
    (ring.rename r).racksIn (labels.datacenter dc) =
      (ring.racksIn dc).map (labels.rack (some dc)) := by
  have hracks : ((ring.nodesIn dc).map r.node).filterMap (·.rack) =
      ((ring.nodesIn dc).filterMap (·.rack)).map (labels.rack (some dc)) := by
    rw [List.filterMap_map, List.map_filterMap]
    apply List.filterMap_congr
    intro n hn
    exact hlabels.rack_node (of_decide_eq_true (List.mem_filter.1 hn).2)
  rw [racksIn, ring.nodesIn_rename hlabels, hracks,
    Node.eraseDups_map (labels.rack_injective dc), racksIn]

/-- The quotas of the renamed ring are the renamed quotas. -/
theorem quotas_rename (factors : SortedMap String Factor) :
    (ring.rename r).quotas (factors.mapKeys labels.datacenter) =
      Selection.renameQuotas r labels (ring.quotas factors) := by
  rw [quotas, SortedMap.mapValues_mapKeys labels.datacenter_injective, Selection.renameQuotas]
  congr 1
  apply SortedMap.ext
  simp only [quotas, SortedMap.mapValues, List.map_map, Function.comp_def,
    ring.nodesIn_rename hlabels, ring.racksIn_rename hlabels, List.length_map]
  rfl

/-- On the renamed ring the renamed nodes are chosen. -/
theorem selectionFrom_rename (factors : SortedMap String Factor) (index : Nat) :
    (ring.rename r).selectionFrom (factors.mapKeys labels.datacenter) index =
      (ring.selectionFrom factors index).rename r labels := by
  rw [selectionFrom, ring.quotas_rename hlabels, ownersFrom_rename, Selection.start_rename,
    Selection.offerAll_rename hlabels, selectionFrom]

end Labels

end Ring

/-! ### Main result -/

variable {τ : Type} [Token τ]

/-- The strategies that read no labels commute with any renaming. -/
theorem Strategy.replicasFrom_rename {strategy : Strategy}
    (h : strategy.strategyClass ≠ .networkTopology) (r : Renaming) (ring : Ring τ) (index : Nat) :
    strategy.replicasFrom (ring.rename r) index = (strategy.replicasFrom ring index).map r.node := by
  cases strategy with
  | localOnly =>
    rw [replicasFrom, ring.ownerAt?_rename, replicasFrom, Option.toList_map]
  | simple factor full_pos =>
    rw [replicasFrom_simple, ring.nodesFrom_rename, replicasFrom_simple, List.map_take]
  | networkTopology factors => exact absurd rfl h
  | everywhere => exact ring.nodes_rename r

/-- What holds at every index holds of the whole map. -/
theorem Strategy.replicas_place_rename {strategy strategy' : Strategy} {r : Renaming} {ring : Ring τ}
    (h : ∀ index, strategy'.replicasFrom (ring.rename r) index =
      (strategy.replicasFrom ring index).map r.node) :
    (strategy'.place (ring.rename r)).replicas =
      (strategy.place ring).replicas.mapValues fun _ replicas => replicas.map r.node := by
  rw [replicas_eq_tabulate, replicas_eq_tabulate, ring.mapValues_tabulate, ring.tabulate_rename,
    funext h]

/-- On a ring with renamed nodes the local, the simple and the everywhere strategy give every token the
renamed list of replicas, whatever labels the nodes get. So does the network topology strategy, with
factors for the renamed datacenters, if the nodes get new names of their labels. -/
theorem replicas_rename (r : Renaming) (ring : Ring τ) :
    (∀ strategy : Strategy, strategy.strategyClass ≠ .networkTopology →
      (strategy.place (ring.rename r)).replicas =
        (strategy.place ring).replicas.mapValues fun _ replicas => replicas.map r.node) ∧
    ∀ labels, r.Follows labels → ∀ factors : SortedMap String Factor,
      ((Strategy.networkTopology (factors.mapKeys labels.datacenter)).place
        (ring.rename r)).replicas =
        ((Strategy.networkTopology factors).place ring).replicas.mapValues
          fun _ replicas => replicas.map r.node := by
  constructor
  · intro strategy hclass
    exact Strategy.replicas_place_rename (Strategy.replicasFrom_rename hclass r ring)
  · intro labels hlabels factors
    apply Strategy.replicas_place_rename
    intro index
    show ((ring.rename r).selectionFrom _ index).replicas = _
    rw [ring.selectionFrom_rename hlabels]
    rfl

/-- Datacenters get a common beginning. Racks get one in the east alone. -/
def sampleLabeling : Labeling where
  datacenter dc := "dc-" ++ dc
  rack dc name := if dc = some "east" then "east-" ++ name else name
  datacenter_injective _ _ h := (String.append_right_inj _).1 h
  rack_injective dc a b h := by
    dsimp only at h
    split at h
    · exact (String.append_right_inj _).1 h
    · exact h

def sampleRenaming : Renaming where
  id id := ⟨0xffffffffffffffffffffffffffffffff - id.value, by omega⟩
  name _ := "member"
  datacenter n := n.datacenter.map sampleLabeling.datacenter
  rack n := n.rack.map (sampleLabeling.rack n.datacenter)
  id_injective a b h := by
    have hvalue := congrArg NodeId.value h
    have ha := a.value_lt
    have hb := b.value_lt
    apply NodeId.ext
    dsimp only at hvalue
    omega

/-- The new racks of the east begin with its new name, those of the west do not. -/
theorem replicas_rename_sampleRing :
    sampleRenaming.Follows sampleLabeling ∧
    ((Strategy.networkTopology (sampleFactors.mapKeys sampleLabeling.datacenter)).place
      (sampleRing.rename sampleRenaming)).replicas =
      ((Strategy.networkTopology sampleFactors).place sampleRing).replicas.mapValues
        (fun _ replicas => replicas.map sampleRenaming.node) ∧
    (Strategy.everywhere.place (sampleRing.rename sampleRenaming)).replicas =
      (Strategy.everywhere.place sampleRing).replicas.mapValues
        fun _ replicas => replicas.map sampleRenaming.node := by
  have hfollows : sampleRenaming.Follows sampleLabeling := fun _ => ⟨rfl, rfl⟩
  obtain ⟨hothers, htopology⟩ := replicas_rename sampleRenaming sampleRing
  exact ⟨hfollows, htopology sampleLabeling hfollows sampleFactors, hothers .everywhere nofun⟩

end TokenRing
