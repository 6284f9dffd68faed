import TokenRing.Event
import TokenRing.ReplicaMap

/-!
# Placement by datacenter and rack

Every datacenter has a quota of replicas. On the walk around the ring from a token a datacenter
takes nodes on racks it has not used yet, and sets aside the others. When the last of its racks is
used, the nodes set aside fill the quota in the order in which they were met, and from then on
every node is welcome. A node without a rack is taken at once.
-/

namespace TokenRing

/-- What a datacenter has got while the replicas of a token are chosen. -/
structure Quota where
  /-- The full replicas asked for. -/
  wanted : Nat
  /-- How many of them the nodes of the datacenter allow. -/
  target : Nat
  /-- The distinct racks of the datacenter. -/
  racks : Nat
  /-- The replicas taken. -/
  accepted : Nat := 0
  /-- The racks of which a node was taken. -/
  used : List String := []
  /-- The nodes set aside because their rack was used. -/
  skipped : List Node := []
  deriving DecidableEq, Repr

namespace Quota

def isMet (q : Quota) : Bool :=
  q.target ≤ q.accepted

def racksExhausted (q : Quota) : Bool :=
  q.racks ≤ q.used.length

/-- Takes a node, unless it is among the replicas. -/
def accept (q : Quota) (replicas : List Node) (node : Node) : Quota × List Node :=
  if replicas.any (·.id = node.id) then (q, replicas)
  else ({ q with accepted := q.accepted + 1 }, replicas ++ [node])

def skip (q : Quota) (node : Node) : Quota :=
  { q with skipped := Node.append q.skipped node }

/-- Takes nodes that were set aside, in order, while more are wanted. -/
def fill (q : Quota) (replicas : List Node) : List Node → Quota × List Node
  | [] => (q, replicas)
  | node :: rest =>
    if q.wanted ≤ q.accepted then (q, replicas)
    else
      let (q, replicas) := q.accept replicas node
      q.fill replicas rest

/-- Takes a node on a rack not used before. With the last rack, the nodes set aside follow. -/
def acceptOnNewRack (q : Quota) (replicas : List Node) (node : Node) (rack : String) :
    Quota × List Node :=
  let (q, replicas) := q.accept replicas node
  let q := { q with used := q.used ++ [rack] }
  if q.racksExhausted then { q with skipped := [] }.fill replicas q.skipped
  else (q, replicas)

def offer (q : Quota) (replicas : List Node) (node : Node) : Quota × List Node :=
  if q.wanted ≤ q.accepted then (q, replicas)
  else if q.racksExhausted then q.accept replicas node
  else
    match node.rack with
    | none => q.accept replicas node
    | some rack =>
      if rack ∈ q.used then (q.skip node, replicas)
      else q.acceptOnNewRack replicas node rack

end Quota

structure Selection where
  quotas : SortedMap String Quota
  replicas : List Node := []
  /-- How many quotas are not met. -/
  pending : Nat
  deriving DecidableEq

namespace Selection

def start (quotas : SortedMap String Quota) : Selection where
  quotas := quotas
  pending := quotas.values.countP (!·.isMet)

def offer (s : Selection) (node : Node) : Selection :=
  match node.datacenter with
  | none => s
  | some dc =>
    match s.quotas.get? dc with
    | none => s
    | some q =>
      let (q', replicas) := q.offer s.replicas node
      { quotas := s.quotas.modify dc fun _ => q'
        replicas := replicas
        pending := if !q.isMet && q'.isMet then s.pending - 1 else s.pending }

/-- Offers nodes in order until all quotas are met. -/
def offerAll (s : Selection) : List Node → Selection
  | [] => s
  | node :: rest => if s.pending = 0 then s else (s.offer node).offerAll rest

def shortfalls (s : Selection) : List (String × Quota) :=
  s.quotas.entries.filter fun (_, q) => q.accepted < q.wanted

end Selection

namespace Ring

variable {τ : Type} [Token τ]

def nodesIn (ring : Ring τ) (datacenter : String) : List Node :=
  ring.nodes.filter (·.datacenter = some datacenter)

def racksIn (ring : Ring τ) (datacenter : String) : List String :=
  ((ring.nodesIn datacenter).filterMap (·.rack)).eraseDups

def quotas (ring : Ring τ) (factors : SortedMap String Factor) : SortedMap String Quota :=
  factors.mapValues fun dc factor =>
    { wanted := factor.full
      target := min factor.full (ring.nodesIn dc).length
      racks := (ring.racksIn dc).length }

def selections (ring : Ring τ) (factors : SortedMap String Factor) : SortedMap τ Selection :=
  let start := Selection.start (ring.quotas factors)
  ring.tabulate fun i => start.offerAll (ring.ownersFrom i)

/-- The datacenters with a factor but no node, on a ring that is not empty. -/
def absentDatacenters (ring : Ring τ) (factors : SortedMap String Factor) : List String :=
  if ring.isEmpty then [] else factors.keys.filter fun dc => (ring.nodesIn dc).isEmpty

end Ring

/-- One report for each datacenter below its factor, of the first token at which it is. -/
def underReplicated (selections : List Selection) : List Event :=
  let shortfalls := selections.flatMap Selection.shortfalls
  (shortfalls.eraseDupsBy fun a b => a.1 = b.1).map fun (dc, q) =>
    .underReplicated dc q.accepted q.wanted

end TokenRing
