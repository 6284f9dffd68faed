import TokenRing.Placement.RackAware
import TokenRing.Strategy

/-!
# Placement

The replicas of every token of a ring under a strategy, and what there is to report about them.
-/

namespace TokenRing

/-- Goes on with a list of distinct nodes until it holds `count`. -/
def takeDistinct (count : Nat) (taken : List Node) : List Node → List Node
  | [] => taken
  | node :: rest =>
    if count ≤ taken.length then taken else takeDistinct count (Node.append taken node) rest

structure Placement (τ : Type) [Token τ] where
  replicas : ReplicaMap τ
  events : List Event

namespace Strategy

variable {τ : Type} [Token τ]

def assign (strategy : Strategy) (ring : Ring τ) : Placement τ :=
  match strategy with
  | localOnly => ⟨ring.tabulate fun i => (ring.ownerAt? i).toList, []⟩
  | simple factor _ =>
    let count := min factor.full ring.size
    ⟨ring.tabulate fun i => takeDistinct count [] (ring.ownersFrom i), []⟩
  | networkTopology factors =>
    let selections := ring.selections factors
    ⟨selections.mapValues fun _ s => s.replicas,
      (ring.absentDatacenters factors).map .absentDatacenter ++
        underReplicated selections.values⟩
  | everywhere =>
    let nodes := ring.nodes
    ⟨ring.tabulate fun _ => nodes, []⟩

def place (strategy : Strategy) (ring : Ring τ) : Placement τ :=
  let placement := strategy.assign ring
  { placement with
    events := placement.events ++
      [.replicasComputed strategy.strategyClass ring.nodeCount placement.replicas.size] }

end Strategy

end TokenRing
