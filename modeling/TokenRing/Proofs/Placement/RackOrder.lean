import Mathlib.Data.List.Nodup
import Mathlib.Data.List.Perm.Subperm
import TokenRing.Proofs.Node.Distinct

/-!
# The order in which a datacenter takes its nodes

The nodes of a datacenter, in the order in which a walk meets them, are taken in two phases. Until
the last rack appears, a node is taken if it has no rack or is the first of its rack. The others
wait for the last rack and then follow. Behind the last rack every node is taken when it is met.

Main statements: the order is a permutation, and the walk's own where no node has to wait. However
many nodes are taken in it, they stand on as many racks as they can.
-/

namespace TokenRing.Node

def racks (nodes : List Node) : List String :=
  (nodes.filterMap (·.rack)).eraseDups

/-- Whether a node has no rack, or is the first one of its rack in a list. -/
def leadsRack (nodes : List Node) (node : Node) : Bool :=
  node.rack.isNone || nodes.find? (·.rack = node.rack) = some node

/-- The position at which the last of the racks first appears. -/
def lastRackAt? (nodes : List Node) : Option Nat :=
  if racks nodes = [] then none
  else (List.range nodes.length).find? fun p =>
    (racks (nodes.take (p + 1))).length = (racks nodes).length

def waiting (nodes : List Node) : List Node :=
  match lastRackAt? nodes with
  | none => []
  | some p => (nodes.take p).filter (!leadsRack nodes ·)

/-- The nodes in the order in which they are taken. -/
def rackOrder (nodes : List Node) : List Node :=
  match lastRackAt? nodes with
  | none => nodes
  | some p =>
    (nodes.take (p + 1)).filter (leadsRack nodes) ++ waiting nodes ++ nodes.drop (p + 1)

/-! ### Racks -/

theorem mem_racks {nodes : List Node} {rack : String} :
    rack ∈ racks nodes ↔ ∃ n ∈ nodes, n.rack = some rack := by
  rw [racks, List.mem_eraseDups, List.mem_filterMap]

/-- A further node adds its rack, unless it has none or the rack is there. -/
theorem racks_concat (nodes : List Node) (node : Node) :
    racks (nodes ++ [node]) =
      match node.rack with
      | none => racks nodes
      | some rack => if rack ∈ racks nodes then racks nodes else racks nodes ++ [rack] := by
  unfold racks
  rw [List.filterMap_append]
  cases h : node.rack with
  | none => simp [h]
  | some rack =>
    simp only [List.filterMap_cons, h, List.filterMap_nil, eraseDups_concat, List.mem_eraseDups]

theorem racks_concat_of_mem {nodes : List Node} {node : Node}
    (h : ∀ rack, node.rack = some rack → rack ∈ racks nodes) :
    racks (nodes ++ [node]) = racks nodes := by
  rw [racks_concat]
  cases hrack : node.rack with
  | none => rfl
  | some rack => exact if_pos (h rack hrack)

theorem racks_concat_of_not_mem {nodes : List Node} {node : Node} {rack : String}
    (hrack : node.rack = some rack) (h : rack ∉ racks nodes) :
    racks (nodes ++ [node]) = racks nodes ++ [rack] := by
  rw [racks_concat, hrack]
  exact if_neg h

theorem rack_ne_of_mem_racks {nodes : List Node} {node : Node} {rack : String}
    (hrack : node.rack = some rack) (hnew : rack ∉ racks nodes) :
    ∀ r ∈ racks nodes, node.rack ≠ some r := by
  intro r hr heq
  rw [hrack, Option.some.injEq] at heq
  rw [heq] at hnew
  exact hnew hr

/-- Every rack has a first node. -/
theorem exists_find?_rack {nodes : List Node} {rack : String} (h : rack ∈ racks nodes) :
    ∃ first ∈ nodes, nodes.find? (·.rack = some rack) = some first ∧ first.rack = some rack := by
  rcases mem_racks.1 h with ⟨n, hn, hrack⟩
  obtain ⟨first, hfirst⟩ : ∃ first, nodes.find? (·.rack = some rack) = some first :=
    Option.isSome_iff_exists.1 (List.find?_isSome.2 ⟨n, hn, decide_eq_true hrack⟩)
  have hsame := List.find?_some hfirst
  exact ⟨first, List.mem_of_find?_eq_some hfirst, hfirst, of_decide_eq_true hsame⟩

theorem nodup_racks (nodes : List Node) : (racks nodes).Nodup := by
  induction nodes using List.reverseRecOn with
  | nil => exact .nil
  | append_singleton nodes node ih =>
    rw [racks_concat]
    split
    · exact ih
    · split
      · exact ih
      · next h =>
        refine List.nodup_append.2 ⟨ih, List.nodup_singleton _, fun a ha b hb heq => h ?_⟩
        rwa [← List.mem_singleton.1 hb, ← heq]

theorem racks_subset {nodes nodes' : List Node} (h : nodes ⊆ nodes') :
    racks nodes ⊆ racks nodes' := by
  intro rack hrack
  rcases mem_racks.1 hrack with ⟨n, hn, heq⟩
  exact mem_racks.2 ⟨n, h hn, heq⟩

theorem length_racks_le {nodes nodes' : List Node} (h : nodes ⊆ nodes') :
    (racks nodes).length ≤ (racks nodes').length :=
  ((nodup_racks nodes).subperm (racks_subset h)).length_le

/-- As many racks among some of the nodes as among all are all the racks. -/
theorem mem_racks_of_length_le {nodes nodes' : List Node} (hsub : nodes ⊆ nodes')
    (hlen : (racks nodes').length ≤ (racks nodes).length) {rack : String}
    (h : rack ∈ racks nodes') : rack ∈ racks nodes :=
  (((nodup_racks nodes).subperm (racks_subset hsub)).perm_of_length_le hlen).mem_iff.2 h

theorem racks_append_of_subset {nodes rest : List Node} (h : racks rest ⊆ racks nodes) :
    racks (nodes ++ rest) = racks nodes := by
  -- From the back, since a node adds a rack or not by the racks of the nodes before it.
  induction rest using List.reverseRecOn with
  | nil => rw [List.append_nil]
  | append_singleton rest node ih =>
    have ih := ih (List.Subset.trans (racks_subset (List.subset_append_left _ _)) h)
    rw [← List.append_assoc, racks_concat_of_mem, ih]
    intro rack hrack
    exact ih ▸ h (mem_racks.2 ⟨node, by simp, hrack⟩)

/-! ### Leading nodes -/

section Leading

variable {nodes : List Node}

theorem leadsRack_of_rack_eq_none {node : Node} (h : node.rack = none) :
    leadsRack nodes node = true := by
  simp [leadsRack, h]

/-- Nodes further on do not matter to a node of the list. -/
theorem leadsRack_append {node : Node} (h : node ∈ nodes) (rest : List Node) :
    leadsRack (nodes ++ rest) node = leadsRack nodes node := by
  unfold leadsRack
  obtain ⟨first, hfirst⟩ : ∃ first, nodes.find? (·.rack = node.rack) = some first :=
    Option.isSome_iff_exists.1 (List.find?_isSome.2 ⟨node, h, by simp⟩)
  rw [List.find?_append, hfirst, Option.some_or]

theorem leadsRack_of_not_mem_racks {node : Node} (h : ∀ rack ∈ racks nodes, node.rack ≠ some rack)
    (rest : List Node) : leadsRack (nodes ++ node :: rest) node = true := by
  unfold leadsRack
  cases hrack : node.rack with
  | none => rfl
  | some rack =>
    have hnone : nodes.find? (·.rack = some rack) = none := by
      rw [List.find?_eq_none]
      intro n hn heq
      exact h rack (mem_racks.2 ⟨n, hn, of_decide_eq_true heq⟩) hrack
    rw [List.find?_append, hnone, Option.none_or, List.find?_cons_of_pos (by simp [hrack])]
    simp

/-- A node whose rack came before it does not lead it. -/
theorem leadsRack_eq_false {node : Node} {rack : String} (hnode : node ∉ nodes)
    (hrack : node.rack = some rack) (h : rack ∈ racks nodes) (rest : List Node) :
    leadsRack (nodes ++ rest) node = false := by
  rcases exists_find?_rack h with ⟨first, hmem, hfirst, -⟩
  have hne : first ≠ node := by
    intro heq
    rw [heq] at hmem
    exact hnode hmem
  unfold leadsRack
  rw [hrack, List.find?_append, hfirst, Option.some_or]
  simpa using hne

/-- Which nodes lead their racks does not depend on the nodes behind them. -/
theorem filter_leadsRack_append (nodes rest : List Node) :
    nodes.filter (leadsRack (nodes ++ rest)) = nodes.filter (leadsRack nodes) :=
  List.filter_congr fun _ hn => leadsRack_append hn rest

theorem filter_not_leadsRack_append (nodes rest : List Node) :
    nodes.filter (!leadsRack (nodes ++ rest) ·) = nodes.filter (!leadsRack nodes ·) :=
  List.filter_congr fun _ hn => by rw [leadsRack_append hn rest]

/-- Every rack has a leading node. -/
theorem racks_subset_filter_leadsRack : racks nodes ⊆ racks (nodes.filter (leadsRack nodes)) := by
  intro rack h
  rcases exists_find?_rack h with ⟨first, hmem, hfirst, heq⟩
  refine mem_racks.2 ⟨first, List.mem_filter.2 ⟨hmem, ?_⟩, heq⟩
  simp [leadsRack, heq, hfirst]

/-- Two leading nodes of one rack are the same node. -/
theorem eq_of_leadsRack {a b : Node} {rack : String} (ha : leadsRack nodes a = true)
    (hb : leadsRack nodes b = true) (harack : a.rack = some rack) (hbrack : b.rack = some rack) :
    a = b := by
  simp only [leadsRack, harack, hbrack, Option.isNone_some, Bool.false_or,
    decide_eq_true_eq] at ha hb
  exact Option.some.inj (ha.symm.trans hb)

end Leading

theorem not_mem_of_nodup_append_cons {before rest : List Node} {node : Node}
    (h : (before ++ node :: rest).Nodup) : node ∉ before := by
  intro hmem
  exact (List.nodup_append.1 h).2.2 node hmem node List.mem_cons_self rfl

/-! ### The last rack -/

/-- There is a last rack if there is any. -/
theorem lastRackAt?_eq_none_iff {nodes : List Node} :
    lastRackAt? nodes = none ↔ racks nodes = [] := by
  unfold lastRackAt?
  refine ⟨fun h => ?_, fun h => if_pos h⟩
  by_contra hne
  rw [if_neg hne, List.find?_range_eq_none] at h
  -- The whole list has all the racks, so the search would end at its last position.
  have hpos : 0 < nodes.length := by
    cases nodes with
    | nil => exact absurd rfl hne
    | cons n rest => exact Nat.succ_pos _
  simpa [Nat.sub_add_cancel hpos] using h (nodes.length - 1) (by omega)

theorem lastRackAt?_lt {nodes : List Node} {p : Nat} (h : lastRackAt? nodes = some p) :
    p < nodes.length := by
  unfold lastRackAt? at h
  split at h
  · cases h
  · exact List.mem_range.1 (List.mem_of_find?_eq_some h)

/-- Up to its last new rack a list has all of its racks. -/
theorem length_racks_take_lastRackAt? {nodes : List Node} {p : Nat}
    (h : lastRackAt? nodes = some p) :
    (racks (nodes.take (p + 1))).length = (racks nodes).length := by
  unfold lastRackAt? at h
  split at h
  · cases h
  · simpa using List.find?_some h

/-- Nodes behind the last rack do not move it. -/
theorem lastRackAt?_append {nodes rest : List Node}
    (h : (racks (nodes ++ rest)).length = (racks nodes).length) :
    lastRackAt? (nodes ++ rest) = lastRackAt? nodes := by
  by_cases hnone : racks nodes = []
  · have hnone' : racks (nodes ++ rest) = [] := by
      rw [← List.length_eq_zero_iff, h, hnone, List.length_nil]
    rw [lastRackAt?_eq_none_iff.2 hnone, lastRackAt?_eq_none_iff.2 hnone']
  · rcases Option.ne_none_iff_exists'.1 (mt lastRackAt?_eq_none_iff.1 hnone) with ⟨p, hp⟩
    have hlt := lastRackAt?_lt hp
    have hne' : racks (nodes ++ rest) ≠ [] := by
      rw [← List.length_pos_iff, h]
      exact List.length_pos_iff.2 hnone
    -- The first place with all racks is among the nodes before, where nothing changes.
    rw [hp]
    unfold lastRackAt? at hp ⊢
    rw [if_neg hnone, List.find?_range_eq_some] at hp
    rw [if_neg hne', List.find?_range_eq_some, h, List.length_append]
    rcases hp with ⟨hfound, -, hbefore⟩
    refine ⟨?_, List.mem_range.2 (by omega), fun j hj => ?_⟩
    · rwa [List.take_append_of_le_length (by omega)]
    · rw [List.take_append_of_le_length (by omega)]
      exact hbefore j hj

/-- A node that brings a rack of its own is where the last rack appears. -/
theorem lastRackAt?_concat {nodes : List Node} {node : Node} {rack : String}
    (hrack : node.rack = some rack) (h : rack ∉ racks nodes) :
    lastRackAt? (nodes ++ [node]) = some nodes.length := by
  have hracks := racks_concat_of_not_mem hrack h
  unfold lastRackAt?
  rw [if_neg (by simp [hracks]), List.find?_range_eq_some]
  refine ⟨?_, List.mem_range.2 (by simp), fun j hj => ?_⟩
  · rw [List.take_of_length_le (by simp)]
    exact decide_eq_true rfl
  · -- Before the new node its rack is missing.
    have hle : (racks ((nodes ++ [node]).take (j + 1))).length ≤ (racks nodes).length := by
      rw [List.take_append_of_le_length (by omega)]
      exact length_racks_le (List.take_subset _ _)
    rw [hracks, List.length_append, List.length_singleton]
    simp only [Bool.not_eq_true', decide_eq_false_iff_not]
    omega

/-! ### The order -/

/-- Nodes behind the last rack do not wait. -/
theorem waiting_append {nodes rest : List Node}
    (h : (racks (nodes ++ rest)).length = (racks nodes).length) :
    waiting (nodes ++ rest) = waiting nodes := by
  unfold waiting
  rw [lastRackAt?_append h]
  cases hp : lastRackAt? nodes with
  | none => rfl
  | some p =>
    have hlt := lastRackAt?_lt hp
    dsimp only
    rw [List.take_append_of_le_length (by omega)]
    exact List.filter_congr fun n hn => by rw [leadsRack_append (List.mem_of_mem_take hn)]

/-- When a node brings a new rack, all nodes that lead none wait for it. -/
theorem waiting_concat {nodes : List Node} {node : Node} {rack : String}
    (hrack : node.rack = some rack) (h : rack ∉ racks nodes) :
    waiting (nodes ++ [node]) = nodes.filter (!leadsRack nodes ·) := by
  unfold waiting
  rw [lastRackAt?_concat hrack h]
  dsimp only
  rw [List.take_left, filter_not_leadsRack_append]

/-- Behind the last rack the nodes are taken as they come. -/
theorem rackOrder_append {nodes rest : List Node}
    (h : (racks (nodes ++ rest)).length = (racks nodes).length) :
    rackOrder (nodes ++ rest) = rackOrder nodes ++ rest := by
  unfold rackOrder
  rw [lastRackAt?_append h, waiting_append h]
  cases hp : lastRackAt? nodes with
  | none => rfl
  | some p =>
    have hlt := lastRackAt?_lt hp
    dsimp only
    rw [List.take_append_of_le_length (by omega), List.drop_append_of_le_length (by omega),
      ← List.append_assoc]
    congr 3
    exact List.filter_congr fun n hn => leadsRack_append (List.mem_of_mem_take hn) rest

/-- With the last rack the nodes that were waiting follow. -/
theorem rackOrder_concat {nodes : List Node} {node : Node} {rack : String}
    (hrack : node.rack = some rack) (h : rack ∉ racks nodes) :
    rackOrder (nodes ++ [node]) =
      nodes.filter (leadsRack nodes) ++ node :: nodes.filter (!leadsRack nodes ·) := by
  have hleads : leadsRack (nodes ++ [node]) node = true :=
    leadsRack_of_not_mem_racks (rack_ne_of_mem_racks hrack h) []
  unfold rackOrder
  rw [lastRackAt?_concat hrack h, waiting_concat hrack h]
  dsimp only
  rw [List.take_of_length_le (by simp), List.drop_of_length_le (by simp), List.filter_append,
    filter_leadsRack_append, List.filter_cons_of_pos hleads]
  simp

/-- A node that brings no new rack is taken last. -/
theorem rackOrder_concat_of_mem {nodes : List Node} {node : Node}
    (h : ∀ rack, node.rack = some rack → rack ∈ racks nodes) :
    rackOrder (nodes ++ [node]) = rackOrder nodes ++ [node] :=
  rackOrder_append (congrArg _ (racks_concat_of_mem h))

/-- Every node is taken once. -/
theorem rackOrder_perm (nodes : List Node) : (rackOrder nodes).Perm nodes := by
  induction nodes using List.reverseRecOn with
  | nil => exact .rfl
  | append_singleton nodes node ih =>
    -- A node on a new rack lets the waiting ones follow, any other one comes last.
    by_cases hold : ∀ rack, node.rack = some rack → rack ∈ racks nodes
    · rw [rackOrder_concat_of_mem hold]
      exact ih.append_right _
    · obtain ⟨rack, hrack, h⟩ := not_forall₂.1 hold
      rw [rackOrder_concat hrack h]
      exact List.perm_middle.trans
        (((List.filter_append_perm _ nodes).cons node).trans
          (List.perm_append_singleton node _).symm)

/-- Where all nodes before a new rack lead their racks, no node has to wait. -/
theorem rackOrder_eq_self {nodes : List Node}
    (h : ∀ before node after rack, nodes = before ++ node :: after → node.rack = some rack →
      rack ∉ racks before → ∀ n ∈ before, leadsRack before n = true) : rackOrder nodes = nodes := by
  -- From the back: a node on a new rack finds none that waits.
  induction nodes using List.reverseRecOn with
  | nil => rfl
  | append_singleton nodes node ih =>
    by_cases hold : ∀ rack, node.rack = some rack → rack ∈ racks nodes
    · rw [rackOrder_concat_of_mem hold, ih]
      rintro before other after rack rfl
      exact h before other (after ++ [node]) rack (by simp)
    · obtain ⟨rack, hrack, hnew⟩ := not_forall₂.1 hold
      have hleads := h nodes node [] rack rfl hrack hnew
      have hnone : nodes.filter (!leadsRack nodes ·) = [] := by
        rw [List.filter_eq_nil_iff]
        intro n hn
        simp [hleads n hn]
      rw [rackOrder_concat hrack hnew, List.filter_eq_self.2 hleads, hnone]

/-- With one rack, nodes are taken as they are met. -/
theorem rackOrder_of_one_rack {nodes : List Node} (h : (racks nodes).length ≤ 1) :
    rackOrder nodes = nodes := by
  apply rackOrder_eq_self
  rintro before node after rack rfl hrack hnew n hn
  -- The first rack is the only one, so there is none before it.
  have hlen := length_racks_le (List.subset_append_left (before ++ [node]) after)
  rw [List.append_assoc, List.singleton_append, racks_concat_of_not_mem hrack hnew,
    List.length_append, List.length_singleton] at hlen
  have hnone : racks before = [] := List.length_eq_zero_iff.1 (by omega)
  apply leadsRack_of_rack_eq_none
  rw [Option.eq_none_iff_forall_ne_some]
  intro other hother
  have hmem := mem_racks.2 ⟨n, hn, hother⟩
  rw [hnone] at hmem
  cases hmem

theorem leadsRack_of_own_rack {nodes : List Node} {node : Node} (hnode : node ∈ nodes)
    (h : ∀ n ∈ nodes, node.rack.isSome → n.rack = node.rack → n = node) :
    leadsRack nodes node = true := by
  cases hrack : node.rack with
  | none => exact leadsRack_of_rack_eq_none hrack
  | some rack =>
    obtain ⟨first, hfirst, hfind, hsame⟩ := exists_find?_rack (mem_racks.2 ⟨node, hnode, hrack⟩)
    rw [h first hfirst (by rw [hrack]; rfl) (hsame.trans hrack.symm)] at hfind
    simp [leadsRack, hrack, hfind]

/-- If no two nodes share a rack, nodes are taken as they are met. -/
theorem rackOrder_of_own_racks {nodes : List Node}
    (h : ∀ a ∈ nodes, ∀ b ∈ nodes, a.rack.isSome → b.rack = a.rack → b = a) :
    rackOrder nodes = nodes := by
  apply rackOrder_eq_self
  rintro before node after rack rfl - - n hn
  have hbefore : ∀ m ∈ before, m ∈ before ++ node :: after := fun m => List.mem_append_left _
  exact leadsRack_of_own_rack hn fun m hm => h n (hbefore n hn) m (hbefore m hm)

/-- The order starts with one node of every rack. -/
theorem exists_prefix_rackOrder (nodes : List Node) :
    ∃ leaders rest, rackOrder nodes = leaders ++ rest ∧ racks nodes ⊆ racks leaders ∧
      ∀ n ∈ leaders, leadsRack nodes n = true := by
  unfold rackOrder
  cases hp : lastRackAt? nodes with
  | none => exact ⟨[], nodes, rfl, by simp [lastRackAt?_eq_none_iff.1 hp], by simp⟩
  | some p =>
    refine ⟨(nodes.take (p + 1)).filter (leadsRack nodes), waiting nodes ++ nodes.drop (p + 1),
      List.append_assoc .., fun rack hrack => ?_, fun n hn => (List.mem_filter.1 hn).2⟩
    -- Each rack is met up to the last new one, so a node that leads it is among the first.
    have hearly : rack ∈ racks (nodes.take (p + 1)) :=
      mem_racks_of_length_le (List.take_subset _ _)
        (Nat.le_of_eq (length_racks_take_lastRackAt? hp).symm) hrack
    have hfilter := filter_leadsRack_append (nodes.take (p + 1)) (nodes.drop (p + 1))
    rw [List.take_append_drop] at hfilter
    rw [hfilter]
    exact racks_subset_filter_leadsRack hearly

theorem length_racks_le_countP (nodes : List Node) :
    (racks nodes).length ≤ nodes.countP (·.rack.isSome) := by
  rw [← List.length_filterMap_eq_countP]
  exact ((nodup_racks nodes).subperm fun _ h => List.mem_eraseDups.1 h).length_le

/-- As many racks as nodes with a rack are all different. -/
theorem pairwise_rack_ne {nodes : List Node}
    (h : nodes.countP (·.rack.isSome) ≤ (racks nodes).length) :
    (nodes.filter (·.rack.isSome)).Pairwise (·.rack ≠ ·.rack) := by
  -- From the back: a node on a rack that was met before leaves too few racks for the others.
  induction nodes using List.reverseRecOn with
  | nil => exact .nil
  | append_singleton nodes node ih =>
    have hle := length_racks_le_countP nodes
    rw [List.countP_append] at h
    rw [List.filter_append]
    cases hrack : node.rack with
    | none =>
      have hsame : racks (nodes ++ [node]) = racks nodes :=
        racks_concat_of_mem fun rack hsome => by simp [hrack] at hsome
      rw [hsame] at h
      simpa [hrack] using ih (by omega)
    | some rack =>
      have hone : [node].countP (·.rack.isSome) = 1 := by simp [hrack]
      by_cases hold : rack ∈ racks nodes
      · have hsame : racks (nodes ++ [node]) = racks nodes :=
          racks_concat_of_mem fun r hr => Option.some.inj (hrack ▸ hr) ▸ hold
        rw [hsame] at h
        omega
      · rw [racks_concat_of_not_mem hrack hold, List.length_append, List.length_singleton] at h
        rw [List.filter_cons_of_pos (by simp [hrack]), List.filter_nil]
        refine List.pairwise_append.2 ⟨ih (by omega), List.pairwise_singleton .., ?_⟩
        intro n hn m hm heq
        rw [List.mem_singleton.1 hm, hrack] at heq
        exact hold (mem_racks.2 ⟨n, (List.mem_filter.1 hn).1, heq⟩)

/-- Distinct leading nodes stand on as many racks as they have. -/
theorem length_racks_of_leadsRack {nodes leaders : List Node} (hnodup : leaders.Nodup)
    (h : ∀ n ∈ leaders, leadsRack nodes n = true) :
    (racks leaders).length = leaders.countP (·.rack.isSome) := by
  induction leaders using List.reverseRecOn with
  | nil => rfl
  | append_singleton leaders node ih =>
    have hnot := not_mem_of_nodup_append_cons hnodup
    have ih := ih (List.nodup_append.1 hnodup).1 fun n hn => h n (List.mem_append_left _ hn)
    have hnode := h node (by simp)
    rw [List.countP_append, ← ih]
    cases hrack : node.rack with
    | none => simp [racks_concat, hrack]
    | some rack =>
      have hfresh : rack ∉ racks leaders := by
        intro hmem
        rcases mem_racks.1 hmem with ⟨n, hn, heq⟩
        have hsame := eq_of_leadsRack (h n (List.mem_append_left _ hn)) hnode heq hrack
        exact hnot (hsame ▸ hn)
      simp [racks_concat_of_not_mem hrack hfresh, hrack]

/-- However many nodes are taken in this order, they stand on as many racks as they can. -/
theorem length_racks_take_rackOrder {nodes : List Node} (hnodup : nodes.Nodup) (count : Nat) :
    (racks ((rackOrder nodes).take count)).length =
      min (((rackOrder nodes).take count).countP (·.rack.isSome)) (racks nodes).length := by
  rcases exists_prefix_rackOrder nodes with ⟨leaders, rest, heq, hracks, hleads⟩
  have hle : (racks ((rackOrder nodes).take count)).length ≤ (racks nodes).length :=
    length_racks_le fun n hn => (rackOrder_perm nodes).mem_iff.1 (List.mem_of_mem_take hn)
  by_cases hcount : count ≤ leaders.length
  · -- Only leading nodes are taken.
    have hnodup' : ((rackOrder nodes).take count).Nodup :=
      ((rackOrder_perm nodes).nodup_iff.2 hnodup).sublist (List.take_sublist _ _)
    have hleads' : ∀ n ∈ (rackOrder nodes).take count, leadsRack nodes n = true := by
      rw [heq, List.take_append_of_le_length hcount]
      exact fun n hn => hleads n (List.mem_of_mem_take hn)
    have hlen := length_racks_of_leadsRack hnodup' hleads'
    omega
  · -- All leading nodes are taken, and with them every rack.
    have hsub : racks nodes ⊆ racks ((rackOrder nodes).take count) := by
      refine List.Subset.trans hracks (racks_subset fun n hn => ?_)
      rw [heq, List.take_append]
      exact List.mem_append_left _ (by rwa [List.take_of_length_le (by omega)])
    have hge := ((nodup_racks nodes).subperm hsub).length_le
    have hcountP := length_racks_le_countP ((rackOrder nodes).take count)
    omega

end TokenRing.Node
