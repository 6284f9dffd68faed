import TokenRing.Proofs.Placement.RackOrder

/-!
# Rack order along a walk

The order of a longer list starts with the order of a shorter one. What one more node adds to it is
taken at the position of that node.
-/

namespace TokenRing.Node

/-! ### As far as a walk has come -/

/-- The nodes taken so far, in a datacenter that has `total` racks. -/
def orderSoFar (total : Nat) (nodes : List Node) : List Node :=
  if (racks nodes).length < total then nodes.filter (leadsRack nodes) else rackOrder nodes

def gained (total : Nat) (nodes : List Node) (node : Node) : List Node :=
  if total ≤ (racks nodes).length then [node]
  else
    match node.rack with
    | none => [node]
    | some rack =>
      if rack ∈ racks nodes then []
      else if total ≤ (racks nodes).length + 1 then node :: nodes.filter (!leadsRack nodes ·)
      else [node]

/-- Until all racks are seen, the nodes that lead their racks are taken. -/
theorem orderSoFar_of_lt {total : Nat} {nodes : List Node} (h : (racks nodes).length < total) :
    orderSoFar total nodes = nodes.filter (leadsRack nodes) :=
  if_pos h

/-- Once all racks are seen, the nodes are taken in rack order. -/
theorem orderSoFar_of_le {total : Nat} {nodes : List Node} (h : total ≤ (racks nodes).length) :
    orderSoFar total nodes = rackOrder nodes :=
  if_neg (Nat.not_lt.2 h)

theorem orderSoFar_subset (total : Nat) (nodes : List Node) : orderSoFar total nodes ⊆ nodes := by
  unfold orderSoFar
  split
  · exact List.filter_subset_self _
  · exact (rackOrder_perm nodes).subset

theorem length_orderSoFar_le (total : Nat) (nodes : List Node) :
    (orderSoFar total nodes).length ≤ nodes.length := by
  unfold orderSoFar
  split
  · exact List.length_filter_le ..
  · exact Nat.le_of_eq (rackOrder_perm nodes).length_eq

/-- Every rack that is seen has a node that is taken. -/
theorem mem_racks_orderSoFar {total : Nat} {nodes : List Node} {rack : String} :
    rack ∈ racks (orderSoFar total nodes) ↔ rack ∈ racks nodes := by
  refine ⟨fun h => racks_subset (orderSoFar_subset total nodes) h, fun h => ?_⟩
  unfold orderSoFar
  split
  · exact racks_subset_filter_leadsRack h
  · exact racks_subset (rackOrder_perm nodes).symm.subset h

/-- What was taken stays in place when one more node is met. -/
theorem orderSoFar_concat {total : Nat} {nodes : List Node} {node : Node} (hnode : node ∉ nodes)
    (hle : (racks (nodes ++ [node])).length ≤ total) :
    orderSoFar total (nodes ++ [node]) = orderSoFar total nodes ++ gained total nodes node := by
  unfold gained
  by_cases hall : total ≤ (racks nodes).length
  · -- Behind the last rack the node just follows.
    have hlen : (racks (nodes ++ [node])).length = (racks nodes).length :=
      Nat.le_antisymm (by omega) (length_racks_le (List.subset_append_left _ _))
    rw [if_pos hall, orderSoFar_of_le hall, orderSoFar_of_le (by omega), rackOrder_append hlen]
  rw [if_neg hall, orderSoFar_of_lt (Nat.lt_of_not_le hall)]
  -- Before the last rack the node is taken if it leads a rack, and it may bring the last one.
  cases hrack : node.rack with
  | none =>
    have hsame : racks (nodes ++ [node]) = racks nodes := by rw [racks_concat, hrack]
    rw [orderSoFar_of_lt (by rw [hsame]; omega), List.filter_append, filter_leadsRack_append,
      List.filter_cons_of_pos (leadsRack_of_rack_eq_none hrack), List.filter_nil]
  | some rack =>
    dsimp only
    by_cases hold : rack ∈ racks nodes
    · -- On a rack that was met the node waits, and the order stays as it is.
      have hsame : racks (nodes ++ [node]) = racks nodes :=
        racks_concat_of_mem fun r hr => Option.some.inj (hrack ▸ hr) ▸ hold
      have hwaits : leadsRack (nodes ++ [node]) node = false :=
        leadsRack_eq_false hnode hrack hold [node]
      rw [if_pos hold, orderSoFar_of_lt (by rw [hsame]; omega), List.filter_append,
        filter_leadsRack_append, List.filter_cons_of_neg (by simp [hwaits]), List.filter_nil]
    · -- On a new rack it is taken, and if no rack is missing now, those that wait follow.
      have hnew := racks_concat_of_not_mem hrack hold
      have hlen : (racks (nodes ++ [node])).length = (racks nodes).length + 1 := by simp [hnew]
      rw [if_neg hold]
      split
      · rw [orderSoFar_of_le (by omega), rackOrder_concat hrack hold]
      · have hleads : leadsRack (nodes ++ [node]) node = true :=
          leadsRack_of_not_mem_racks (rack_ne_of_mem_racks hrack hold) []
        rw [orderSoFar_of_lt (by omega), List.filter_append, filter_leadsRack_append,
          List.filter_cons_of_pos hleads, List.filter_nil]

/-- Meeting more nodes only adds to those that are taken. -/
theorem orderSoFar_prefix {total : Nat} {nodes rest : List Node} (hnodup : (nodes ++ rest).Nodup)
    (hle : (racks (nodes ++ rest)).length ≤ total) :
    orderSoFar total nodes <+: orderSoFar total (nodes ++ rest) := by
  -- From the back, since what a node gains depends on all nodes before it.
  induction rest using List.reverseRecOn with
  | nil => simp
  | append_singleton rest node ih =>
    rw [← List.append_assoc] at hnodup hle ⊢
    have hnodup' := (List.nodup_append.1 hnodup).1
    have hnode := not_mem_of_nodup_append_cons hnodup
    have hle' : (racks (nodes ++ rest)).length ≤ total :=
      Nat.le_trans (length_racks_le (List.subset_append_left ..)) hle
    rw [orderSoFar_concat hnode hle]
    exact (ih hnodup' hle').trans (List.prefix_append ..)

/-! ### Positions on a walk -/

/-- The position on a walk at which a node is taken: its own, or that of the last rack of its
datacenter where it waits for this. -/
def takenAt (walk : List Node) (node : Node) : Nat :=
  let nodes := walk.filter (·.datacenter = node.datacenter)
  match (lastRackAt? nodes).bind (nodes[·]?) with
  | none => walk.idxOf node
  | some last => if node ∈ waiting nodes then walk.idxOf last else walk.idxOf node

/-- A node that need not wait is taken where it is met. -/
theorem takenAt_of_not_waiting {walk : List Node} {node : Node}
    (h : node ∉ waiting (walk.filter (·.datacenter = node.datacenter))) :
    takenAt walk node = walk.idxOf node := by
  unfold takenAt
  dsimp only
  split
  · rfl
  · exact if_neg h

theorem waiting_subset (nodes : List Node) : waiting nodes ⊆ nodes := by
  unfold waiting
  split
  · exact List.nil_subset _
  · exact fun n hn => List.mem_of_mem_take (List.mem_filter.1 hn).1

theorem not_leadsRack_of_mem_waiting {nodes : List Node} {node : Node}
    (h : node ∈ waiting nodes) : leadsRack nodes node = false := by
  unfold waiting at h
  split at h
  · cases h
  · simpa using (List.mem_filter.1 h).2

/-- A node is taken when it is met, or with the node on the last rack, for which it waited. -/
theorem mem_gained {total : Nat} {nodes : List Node} {node n : Node}
    (h : n ∈ gained total nodes node) :
    n = node ∧ (total ≤ (racks nodes).length ∨ ∀ rack ∈ racks nodes, node.rack ≠ some rack) ∨
      n ∈ nodes.filter (!leadsRack nodes ·) ∧ total ≤ (racks nodes).length + 1 ∧
        ∃ rack, node.rack = some rack ∧ rack ∉ racks nodes := by
  unfold gained at h
  split at h
  · next hall => exact .inl ⟨List.mem_singleton.1 h, .inl hall⟩
  · split at h
    · next hrack => exact .inl ⟨List.mem_singleton.1 h, .inr fun _ _ => by simp [hrack]⟩
    · next rack hrack =>
      split at h
      · cases h
      · next hnew =>
        have hfresh := rack_ne_of_mem_racks hrack hnew
        split at h
        · next hlast =>
          rcases List.mem_cons.1 h with rfl | hmem
          · exact .inl ⟨rfl, .inr hfresh⟩
          · exact .inr ⟨hmem, hlast, rack, hrack, hnew⟩
        · exact .inl ⟨List.mem_singleton.1 h, .inr hfresh⟩

theorem gained_subset (total : Nat) (nodes : List Node) (node : Node) :
    gained total nodes node ⊆ nodes ++ [node] := fun n hn => by
  rcases mem_gained hn with ⟨rfl, -⟩ | ⟨hmem, -⟩
  · simp
  · exact List.mem_append_left _ (List.mem_filter.1 hmem).1

/-- A node does not wait if it comes behind the last rack, or brings a rack itself. -/
theorem not_mem_waiting {early late : List Node} {node : Node} (hnot : node ∉ early)
    (h : (racks (early ++ node :: late)).length ≤ (racks early).length ∨
      ∀ rack ∈ racks early, node.rack ≠ some rack) :
    node ∉ waiting (early ++ node :: late) := by
  rcases h with hlen | hfresh
  · -- The last rack is among those before, and so are the nodes that wait for it.
    have hlen' : (racks (early ++ node :: late)).length = (racks early).length :=
      Nat.le_antisymm hlen (length_racks_le (List.subset_append_left ..))
    rw [waiting_append hlen']
    exact fun hmem => hnot (waiting_subset early hmem)
  · -- The node leads its rack, so it does not wait.
    intro hmem
    have hfalse := not_leadsRack_of_mem_waiting hmem
    rw [leadsRack_of_not_mem_racks hfresh late] at hfalse
    exact Bool.noConfusion hfalse

/-- A node that brings the last rack is where the waiting ends. -/
theorem lastRackAt?_of_last {early late : List Node} {node : Node} {rack : String}
    (hrack : node.rack = some rack) (hnew : rack ∉ racks early)
    (hlast : (racks (early ++ node :: late)).length ≤ (racks early).length + 1) :
    lastRackAt? (early ++ node :: late) = some early.length ∧
      waiting (early ++ node :: late) = early.filter (!leadsRack early ·) := by
  have hlen : (racks (early ++ [node] ++ late)).length = (racks (early ++ [node])).length := by
    refine Nat.le_antisymm ?_ (length_racks_le (List.subset_append_left ..))
    rw [racks_concat_of_not_mem hrack hnew, List.append_assoc, List.singleton_append]
    simpa using hlast
  rw [← List.singleton_append, ← List.append_assoc, lastRackAt?_append hlen, waiting_append hlen]
  exact ⟨lastRackAt?_concat hrack hnew, waiting_concat hrack hnew⟩

/-- The nodes that are taken when a node is met are taken at its position. -/
theorem takenAt_of_mem_gained {before rest : List Node} {node n : Node} {dc : String}
    (hnodup : (before ++ node :: rest).Nodup) (hdc : node.datacenter = some dc)
    (h : n ∈ gained (racks ((before ++ node :: rest).filter (·.datacenter = some dc))).length
      (before.filter (·.datacenter = some dc)) node) :
    n.datacenter = some dc ∧ takenAt (before ++ node :: rest) n = before.length := by
  have hnot := not_mem_of_nodup_append_cons hnodup
  have hidx : (before ++ node :: rest).idxOf node = before.length := by
    rw [List.idxOf_append_of_notMem hnot, List.idxOf_cons_self, Nat.add_zero]
  have hndc : n.datacenter = some dc := by
    rcases List.mem_append.1 (gained_subset _ _ _ h) with hmem | hmem
    · simpa using (List.mem_filter.1 hmem).2
    · rw [List.mem_singleton.1 hmem, hdc]
  refine ⟨hndc, ?_⟩
  -- The nodes of the datacenter: those before, the node itself, and those behind.
  have hsplit : (before ++ node :: rest).filter (·.datacenter = some dc) =
      before.filter (·.datacenter = some dc) ++
        node :: rest.filter (·.datacenter = some dc) := by
    rw [List.filter_append, List.filter_cons_of_pos (by simp [hdc])]
  have hnot' : node ∉ before.filter (·.datacenter = some dc) := fun hmem =>
    hnot (List.mem_filter.1 hmem).1
  rw [hsplit] at h
  rcases mem_gained h with ⟨rfl, hcase⟩ | ⟨hwaits, hlast, rack, hrack, hnew⟩
  · -- The node itself is taken where it is met.
    rw [takenAt_of_not_waiting, hidx]
    rw [hdc, hsplit]
    exact not_mem_waiting hnot' hcase
  · -- A node that waited is taken where the last rack is met.
    rcases lastRackAt?_of_last hrack hnew hlast with ⟨hat, hwaiting⟩
    unfold takenAt
    dsimp only
    rw [hndc, hsplit, hat, hwaiting, Option.bind_some, List.getElem?_append_right (Nat.le_refl _),
      Nat.sub_self, List.getElem?_cons_zero]
    dsimp only
    rw [if_pos hwaits, hidx]

end TokenRing.Node
