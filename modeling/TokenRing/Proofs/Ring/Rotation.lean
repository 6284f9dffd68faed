import Mathlib.Data.List.Rotate
import TokenRing.Proofs.Node.Distinct
import TokenRing.Ring.Walk

/-!
# Walks are rotations

The walk from an index is the rotation of the entries that begins there. So each walk meets the
same nodes, every one with the one record that the ring has of it.
-/

namespace TokenRing.Ring

variable {τ : Type} [Token τ] (ring : Ring τ)

/-- What is left of a walk is a rotation of the entries without those taken. -/
theorem Walk.toList_eq_drop {ring : Ring τ} (walk : Walk ring) :
    walk.toList = (ring.entries.toList.rotate walk.start).drop walk.taken := by
  -- Along the entries that are left, one fewer with each step.
  fun_induction Walk.toList walk with
  | case1 walk entry walk' h ih =>
    unfold Walk.next? at h
    split at h
    · next hlt =>
      have hlen : walk.taken < (ring.entries.toList.rotate walk.start).length := by
        rw [List.length_rotate]
        exact hlt
      cases h
      rw [ih, List.drop_eq_getElem_cons hlen, List.getElem_rotate]
      simp only [Array.getElem_toList, Array.length_toList, Nat.add_comm]
      rfl
    · cases h
  | case2 walk h =>
    unfold Walk.next? at h
    split at h
    · cases h
    · next hge =>
      rw [List.drop_of_length_le]
      rw [List.length_rotate]
      exact Nat.le_of_not_lt hge

/-- A walk meets all entries, rotated to its start. -/
theorem toList_walkFrom (index : Nat) :
    (ring.walkFrom index).toList = ring.entries.toList.rotate index := by
  rw [Walk.toList_eq_drop]
  exact List.rotate_mod ring.entries.toList index

theorem ownersFrom_eq_rotate (index : Nat) : ring.ownersFrom index = ring.owners.rotate index := by
  rw [ownersFrom, toList_walkFrom, List.map_rotate, owners]

/-- A walk meets every owner as often as the ring has it. -/
theorem ownersFrom_perm (index : Nat) : (ring.ownersFrom index).Perm ring.owners := by
  rw [ownersFrom_eq_rotate]
  exact List.rotate_perm ring.owners index

/-! ### Nodes -/

theorem oneRecord_owners : Node.OneRecord ring.owners := by
  intro a ha b hb hid
  rcases List.mem_map.1 ha with ⟨e, he, rfl⟩
  rcases List.mem_map.1 hb with ⟨f, hf, rfl⟩
  exact ring.one_record e (Array.mem_toList_iff.1 he) f (Array.mem_toList_iff.1 hf) hid

theorem oneRecord_ownersFrom (index : Nat) : Node.OneRecord (ring.ownersFrom index) :=
  ring.oneRecord_owners.subset (ring.ownersFrom_perm index).subset

theorem distinct_ownersFrom_perm (index : Nat) :
    (Node.distinct (ring.ownersFrom index)).Perm ring.nodes :=
  Node.distinct_perm (ring.oneRecord_ownersFrom index) (ring.ownersFrom_perm index)

/-- As many identifiers as there are, as many nodes are on the ring. -/
theorem nodeCount_eq_length_nodes : ring.nodeCount = ring.nodes.length := by
  rw [nodeCount, ← Node.map_id_distinct, List.length_map, nodes]

end TokenRing.Ring
