import Mathlib.Data.List.Basic
import TokenRing.Proofs.Node.Distinct

/-!
# Renaming nodes

Nodes get new identifiers, names and labels. As long as different identifiers stay different, what
depends on equal identifiers only can be exchanged with the renaming.
-/

namespace TokenRing

/-- New identifiers, names and labels for nodes. Different identifiers stay different. -/
structure Renaming where
  id : NodeId → NodeId
  name : Node → String
  datacenter : Node → Option String
  rack : Node → Option String
  id_injective : Function.Injective id

/-- New names for the labels of datacenters, and for those of the racks in each datacenter. Different
datacenters stay different, and so do different racks of one datacenter. -/
structure Labeling where
  datacenter : String → String
  /-- The new names of racks, for nodes in a datacenter and for those without one. -/
  rack : Option String → String → String
  datacenter_injective : Function.Injective datacenter
  rack_injective : ∀ dc, Function.Injective (rack (some dc))

namespace Renaming

def node (r : Renaming) (n : Node) : Node :=
  ⟨r.id n.id, r.name n, r.datacenter n, r.rack n⟩

/-- Whether nodes get the new names of their labels, and no other labels. -/
def Follows (r : Renaming) (labels : Labeling) : Prop :=
  ∀ n, r.datacenter n = n.datacenter.map labels.datacenter ∧
    r.rack n = n.rack.map (labels.rack n.datacenter)

variable (r : Renaming)

/-- Renaming neither joins nor splits identifiers. -/
theorem id_node_eq_iff {a b : Node} : (r.node a).id = (r.node b).id ↔ a.id = b.id :=
  r.id_injective.eq_iff

theorem any_id_map (nodes : List Node) (n : Node) :
    (nodes.map r.node).any (·.id = (r.node n).id) = nodes.any (·.id = n.id) := by
  rw [List.any_map]
  simp only [Function.comp_def, r.id_node_eq_iff]

theorem append_map (nodes : List Node) (n : Node) :
    Node.append (nodes.map r.node) (r.node n) = (Node.append nodes n).map r.node := by
  rw [Node.append, r.any_id_map, Node.append]
  split
  · rfl
  · rw [List.map_append, List.map_singleton]

/-- Dropping repetitions and renaming can be exchanged. -/
theorem distinct_map (nodes : List Node) :
    Node.distinct (nodes.map r.node) = (Node.distinct nodes).map r.node := by
  induction nodes with
  | nil => rfl
  | cons n rest ih =>
    rw [List.map_cons, Node.distinct, ih, Node.distinct, List.map_cons, List.filter_map]
    simp only [Function.comp_def, ne_eq, r.id_node_eq_iff]

section Labels

variable {r} {labels : Labeling}

theorem Follows.datacenter_node (h : r.Follows labels) (n : Node) :
    (r.node n).datacenter = n.datacenter.map labels.datacenter :=
  (h n).1

theorem Follows.rack_node (h : r.Follows labels) {n : Node} {dc : String}
    (hdc : n.datacenter = some dc) : (r.node n).rack = n.rack.map (labels.rack (some dc)) :=
  hdc ▸ (h n).2

theorem Follows.datacenter_eq_iff (h : r.Follows labels) {n : Node} {dc : String} :
    (r.node n).datacenter = some (labels.datacenter dc) ↔ n.datacenter = some dc := by
  rw [h.datacenter_node, Option.map_eq_some_iff]
  constructor
  · rintro ⟨dc', hdc', hsame⟩
    rw [hdc', labels.datacenter_injective hsame]
  · intro hdc
    exact ⟨dc, hdc, rfl⟩

end Labels

end Renaming

end TokenRing
