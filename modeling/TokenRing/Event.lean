import TokenRing.Settings

/-!
# Events

What a computation of replicas reports besides its result. Counters of a process are not among the
events, nor are lines about settings or a snapshot that was only read: no answer depends on them.
-/

namespace TokenRing

inductive Event where
  /-- A factor is set for a datacenter in which no node of the ring stands. -/
  | absentDatacenter (datacenter : String)
  /-- A datacenter got fewer replicas than its factor asks for. -/
  | underReplicated (datacenter : String) (achieved expected : Nat)
  | replicasComputed (strategy : StrategyClass) (nodes tokens : Nat)
  | keyspacesBuilt (keyspaces distinctSettings tokens : Nat)
  deriving DecidableEq, Repr

namespace Event

def isWarning : Event → Bool
  | absentDatacenter _ | underReplicated _ _ _ => true
  | replicasComputed _ _ _ | keyspacesBuilt _ _ _ => false

/-- The event as a line of a log: level, message, and fields by name. -/
def line : Event → String
  | absentDatacenter dc =>
    "WARN replication settings name a datacenter with no nodes in the ring: " ++
      s!"datacenter={dc}"
  | underReplicated dc achieved expected =>
    "WARN could not achieve replication factor for datacenter: " ++
      s!"achieved={achieved} datacenter={dc} expected={expected}"
  | replicasComputed strategy nodes tokens =>
    s!"DEBUG computed replica map: nodes={nodes} strategy={strategy.name} tokens={tokens}"
  | keyspacesBuilt keyspaces distinct tokens =>
    "DEBUG built token map: " ++
      s!"distinct_configs={distinct} keyspaces={keyspaces} tokens={tokens}"

end Event

end TokenRing
