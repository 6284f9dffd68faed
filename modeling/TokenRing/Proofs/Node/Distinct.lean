import Mathlib.Data.List.Induction
import Mathlib.Data.List.Perm.Basic
import TokenRing.Node

/-!
# Lists of distinct nodes

Dropping repeated identifiers keeps the first node of each. Where every identifier comes with one
record, it also keeps every node, and it can be exchanged with a filter.
-/

namespace TokenRing.Node

/-- Every identifier of the list comes with one record. -/
def OneRecord (nodes : List Node) : Prop :=
  ∀ a ∈ nodes, ∀ b ∈ nodes, a.id = b.id → a = b

/-- Fewer nodes still have one record for each identifier. -/
theorem OneRecord.subset {nodes nodes' : List Node} (h : OneRecord nodes) (hsub : nodes' ⊆ nodes) :
    OneRecord nodes' :=
  fun a ha b hb => h a (hsub ha) b (hsub hb)

theorem OneRecord.cons {nodes : List Node} {node : Node} (h : OneRecord nodes)
    (hnode : ∀ n ∈ nodes, n.id = node.id → n = node) : OneRecord (node :: nodes) := by
  intro a ha b hb hid
  rcases List.mem_cons.1 ha with rfl | hold
  · rcases List.mem_cons.1 hb with rfl | hold'
    · rfl
    · exact (hnode b hold' hid.symm).symm
  · rcases List.mem_cons.1 hb with rfl | hold'
    · exact hnode a hold hid
    · exact h a hold b hold' hid

theorem distinct_sublist (nodes : List Node) : (distinct nodes).Sublist nodes := by
  induction nodes with
  | nil => exact .slnil
  | cons node rest ih => exact (List.filter_sublist.trans ih).cons_cons node

theorem head?_distinct (nodes : List Node) : (distinct nodes).head? = nodes.head? := by
  cases nodes with
  | nil => rfl
  | cons node rest => rfl

theorem distinct_subset (nodes : List Node) : distinct nodes ⊆ nodes :=
  (distinct_sublist nodes).subset

theorem exists_mem_distinct {nodes : List Node} {id : NodeId} :
    (∃ n ∈ distinct nodes, n.id = id) ↔ ∃ n ∈ nodes, n.id = id := by
  refine ⟨fun ⟨n, hn, hid⟩ => ⟨n, distinct_subset nodes hn, hid⟩, ?_⟩
  rintro ⟨n, hn, hid⟩
  induction nodes with
  | nil => simp at hn
  | cons node rest ih =>
    by_cases hhead : node.id = id
    · exact ⟨node, by simp [distinct], hhead⟩
    · have hrest : n ∈ rest := by
        rcases List.mem_cons.1 hn with rfl | h
        · exact absurd hid hhead
        · exact h
      rcases ih hrest with ⟨m, hm, hmid⟩
      refine ⟨m, ?_, hmid⟩
      rw [distinct, List.mem_cons, List.mem_filter]
      exact .inr ⟨hm, by simpa [hmid] using fun h => hhead h.symm⟩

theorem pairwise_distinct (nodes : List Node) : (distinct nodes).Pairwise (·.id ≠ ·.id) := by
  induction nodes with
  | nil => exact .nil
  | cons node rest ih =>
    rw [distinct, List.pairwise_cons]
    refine ⟨fun m hm => ?_, ih.filter _⟩
    have hne : m.id ≠ node.id := by simpa using (List.mem_filter.1 hm).2
    exact hne.symm

theorem nodup_distinct (nodes : List Node) : (distinct nodes).Nodup :=
  (pairwise_distinct nodes).imp fun hne heq => hne (congrArg id heq)

/-- Of two nodes that are kept, the first is met before any with the identifier of the other. -/
theorem pairwise_distinct_met (nodes : List Node) :
    (distinct nodes).Pairwise fun a b =>
      ∃ before after, nodes = before ++ a :: after ∧ ∀ n ∈ before, n.id ≠ b.id := by
  induction nodes with
  | nil => exact .nil
  | cons node rest ih =>
    rw [distinct, List.pairwise_cons]
    refine ⟨fun m _ => ⟨[], rest, rfl, nofun⟩, (ih.filter _).imp_of_mem ?_⟩
    rintro a b - hb ⟨before, after, rfl, hbefore⟩
    have hne : b.id ≠ node.id := by simpa using (List.mem_filter.1 hb).2
    exact ⟨node :: before, after, rfl, List.forall_mem_cons.2 ⟨hne.symm, hbefore⟩⟩

theorem any_id_eq_true {nodes : List Node} {id : NodeId} :
    nodes.any (·.id = id) = true ↔ ∃ n ∈ nodes, n.id = id := by
  simp only [List.any_eq_true, decide_eq_true_eq]

/-- A node that is there already is not added. -/
theorem append_of_mem {nodes : List Node} {node : Node} (h : node ∈ nodes) :
    append nodes node = nodes :=
  if_pos (any_id_eq_true.2 ⟨node, h, rfl⟩)

theorem append_of_forall_ne {nodes : List Node} {node : Node} (h : ∀ n ∈ nodes, n.id ≠ node.id) :
    append nodes node = nodes ++ [node] :=
  if_neg fun hany =>
    have ⟨n, hn, hid⟩ := any_id_eq_true.1 hany
    h n hn hid

theorem subset_append (nodes : List Node) (node : Node) : nodes ⊆ append nodes node := by
  unfold append
  split
  · exact List.Subset.refl _
  · exact List.subset_append_left ..

theorem length_le_append (nodes : List Node) (node : Node) :
    nodes.length ≤ (append nodes node).length := by
  unfold append
  split <;> simp

theorem length_append_le (nodes : List Node) (node : Node) :
    (append nodes node).length ≤ nodes.length + 1 := by
  unfold append
  split <;> simp

theorem mem_append_self {nodes : List Node} {node n : Node} (h : n ∈ append nodes node) :
    n ∈ nodes ∨ n = node := by
  unfold append at h
  split at h
  · exact .inl h
  · simpa using h

theorem pairwise_append {nodes : List Node} (node : Node)
    (h : nodes.Pairwise (·.id ≠ ·.id)) : (append nodes node).Pairwise (·.id ≠ ·.id) := by
  unfold append
  split
  · exact h
  · next hnone =>
    refine List.pairwise_append.2 ⟨h, List.pairwise_singleton .., fun n hn m hm hid => ?_⟩
    exact hnone (any_id_eq_true.2 ⟨n, hn, List.mem_singleton.1 hm ▸ hid⟩)

/-- The last node of a list is the last one to be added. -/
theorem distinct_concat (nodes : List Node) (node : Node) :
    distinct (nodes ++ [node]) = append (distinct nodes) node := by
  induction nodes with
  | nil => rfl
  | cons head rest ih =>
    rw [List.cons_append, distinct, ih, distinct]
    unfold append
    -- The head drops the new node, or does not matter to it.
    by_cases hsame : head.id = node.id
    · have hhead : (head :: (distinct rest).filter (·.id ≠ head.id)).any (·.id = node.id) = true :=
        any_id_eq_true.2 ⟨head, List.mem_cons_self, hsame⟩
      rw [if_pos hhead]
      split
      · rfl
      · simp [List.filter_append, hsame]
    · have hany : (head :: (distinct rest).filter (·.id ≠ head.id)).any (·.id = node.id) =
          (distinct rest).any (·.id = node.id) := by
        rw [Bool.eq_iff_iff, any_id_eq_true, any_id_eq_true]
        constructor
        · rintro ⟨n, hn, hid⟩
          rcases List.mem_cons.1 hn with rfl | hn
          · exact absurd hid hsame
          · exact ⟨n, (List.mem_filter.1 hn).1, hid⟩
        · rintro ⟨n, hn, hid⟩
          refine ⟨n, List.mem_cons_of_mem _ (List.mem_filter.2 ⟨hn, ?_⟩), hid⟩
          simpa [hid] using fun h => hsame h.symm
      rw [hany]
      split
      · rfl
      · have hkeep : node.id ≠ head.id := fun h => hsame h.symm
        simp [List.filter_append, hkeep]

/-- The distinct nodes of a longer list begin with those of a shorter one. -/
theorem distinct_prefix (nodes rest : List Node) : distinct nodes <+: distinct (nodes ++ rest) := by
  induction rest using List.reverseRecOn with
  | nil => simp
  | append_singleton rest node ih =>
    rw [← List.append_assoc, distinct_concat]
    apply ih.trans
    unfold append
    split
    · exact List.prefix_rfl
    · exact List.prefix_append ..

theorem prefix_distinct_take (nodes : List Node) (count : Nat) :
    distinct (nodes.take count) <+: distinct nodes := by
  have hpre := distinct_prefix (nodes.take count) (nodes.drop count)
  rwa [List.take_append_drop] at hpre

theorem eraseDups_concat {α : Type} [DecidableEq α] (l : List α) (a : α) :
    (l ++ [a]).eraseDups = if a ∈ l then l.eraseDups else l.eraseDups ++ [a] := by
  rw [List.eraseDups_append]
  by_cases h : a ∈ l <;> simp [List.removeAll, h, List.eraseDups_cons]

/-- Renaming by an injective function keeps what is a repetition. -/
theorem eraseDups_map {α β : Type} [DecidableEq α] [DecidableEq β] {f : α → β}
    (hf : Function.Injective f) (l : List α) : (l.map f).eraseDups = l.eraseDups.map f := by
  induction l using List.reverseRecOn with
  | nil => rfl
  | append_singleton l a ih =>
    have hmem : f a ∈ l.map f ↔ a ∈ l := List.mem_map_of_injective hf
    rw [List.map_append, List.map_singleton, eraseDups_concat, eraseDups_concat, ih]
    by_cases h : a ∈ l
    · rw [if_pos h, if_pos (hmem.2 h)]
    · rw [if_neg h, if_neg (mt hmem.1 h), List.map_append, List.map_singleton]

/-- Every identifier of a list is there once. -/
theorem map_id_distinct (nodes : List Node) :
    (distinct nodes).map (·.id) = (nodes.map (·.id)).eraseDups := by
  induction nodes using List.reverseRecOn with
  | nil => rfl
  | append_singleton nodes node ih =>
    rw [distinct_concat, List.map_append, List.map_singleton, eraseDups_concat, ← ih]
    by_cases hmem : node.id ∈ nodes.map (·.id)
    · have hany := any_id_eq_true.2 (exists_mem_distinct.2 (List.mem_map.1 hmem))
      rw [if_pos hmem, append, if_pos hany]
    · have hany : ¬ (distinct nodes).any (·.id = node.id) = true := by
        intro h
        exact hmem (List.mem_map.2 (exists_mem_distinct.1 (any_id_eq_true.1 h)))
      rw [if_neg hmem, append, if_neg hany, List.map_append, List.map_singleton]

section OneRecord

variable {nodes : List Node}

/-- With one record for each identifier, no node is lost. -/
theorem mem_distinct (h : OneRecord nodes) {n : Node} : n ∈ distinct nodes ↔ n ∈ nodes := by
  refine ⟨fun hn => distinct_subset nodes hn, fun hn => ?_⟩
  -- What is kept in place of the node has its identifier, so its record too.
  rcases exists_mem_distinct.2 ⟨n, hn, rfl⟩ with ⟨m, hm, hid⟩
  rwa [h m (distinct_subset nodes hm) n hn hid] at hm

theorem OneRecord.any_id_eq (h : OneRecord nodes) {own : List Node} {node : Node}
    (hown : own ⊆ nodes) (hnode : node ∈ nodes) :
    own.any (·.id = node.id) = decide (node ∈ own) := by
  rw [Bool.eq_iff_iff, any_id_eq_true, decide_eq_true_eq]
  refine ⟨fun ⟨n, hn, hid⟩ => ?_, fun hmem => ⟨node, hmem, rfl⟩⟩
  rwa [h n (hown hn) node hnode hid] at hn

theorem OneRecord.append_of_not_mem {node : Node} (h : OneRecord (nodes ++ [node]))
    (hnode : node ∉ nodes) : append nodes node = nodes ++ [node] :=
  append_of_forall_ne fun n hn hid =>
    hnode (h n (List.mem_append_left _ hn) node (by simp) hid ▸ hn)

theorem OneRecord.distinct (h : OneRecord nodes) : OneRecord (distinct nodes) :=
  h.subset (distinct_subset nodes)

/-- Dropping repetitions and filtering can be exchanged. -/
theorem filter_distinct (h : OneRecord nodes) (p : Node → Bool) :
    (Node.distinct nodes).filter p = Node.distinct (nodes.filter p) := by
  induction nodes with
  | nil => rfl
  | cons node rest ih =>
    have ih := ih (h.subset (List.subset_cons_self node rest))
    have hswap : ((Node.distinct rest).filter (·.id ≠ node.id)).filter p =
        (Node.distinct (rest.filter p)).filter (·.id ≠ node.id) := by
      rw [← ih, List.filter_filter, List.filter_filter]
      simp only [Bool.and_comm]
    rw [Node.distinct, List.filter_cons, hswap]
    cases hp : p node with
    | true => rw [if_pos rfl, List.filter_cons_of_pos hp, Node.distinct]
    | false =>
      rw [if_neg Bool.false_ne_true, List.filter_cons_of_neg (by simp [hp]),
        List.filter_eq_self.2 fun m hm => ?_]
      -- A node of the same identifier is the same node, and `p` rejects it.
      have hm := List.mem_filter.1 (distinct_subset _ hm)
      refine decide_eq_true fun hid => ?_
      rw [h m (List.mem_cons_of_mem _ hm.1) node List.mem_cons_self hid, hp] at hm
      exact Bool.false_ne_true hm.2

/-- With one record for each identifier, the order matters to the order alone. -/
theorem distinct_perm {nodes' : List Node} (h : OneRecord nodes) (hperm : nodes.Perm nodes') :
    (Node.distinct nodes).Perm (Node.distinct nodes') := by
  rw [List.perm_ext_iff_of_nodup (nodup_distinct nodes) (nodup_distinct nodes')]
  intro n
  rw [mem_distinct h, mem_distinct (h.subset hperm.symm.subset), hperm.mem_iff]

end OneRecord

/-! ### A node to give examples with -/

theorem toNat_lt_id (id : UInt8) : id.toNat < 0x100000000000000000000000000000000 :=
  Nat.lt_trans id.toNat_lt (by decide)

def sample (id : UInt8) (dc rack : Option String) : Node :=
  ⟨⟨id.toNat, toNat_lt_id id⟩, "node", dc, rack⟩

end TokenRing.Node
