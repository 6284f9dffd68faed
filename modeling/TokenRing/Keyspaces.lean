import TokenRing.Placement

/-!
# Keyspaces

The replicas of every keyspace on one ring. Keyspaces with equal settings share one computation,
and nothing is computed before the settings of all keyspaces are checked.
-/

namespace TokenRing

structure InvalidKeyspace where
  keyspace : String
  cause : SettingsError
  deriving DecidableEq

def InvalidKeyspace.message (e : InvalidKeyspace) : String :=
  s!"Invalid replication configuration for keyspace {e.keyspace}: {e.cause.message}"

/-- A keyspace whose settings have been checked. -/
structure Keyspace where
  name : String
  settings : Settings
  strategy : Strategy

def Keyspace.check (name : String) (settings : Settings) : Except InvalidKeyspace Keyspace :=
  match Strategy.ofSettings settings with
  | .ok strategy => .ok ⟨name, settings, strategy⟩
  | .error cause => .error ⟨name, cause⟩

structure Keyspaces (τ : Type) [Token τ] where
  ring : Ring τ
  maps : SortedMap String (ReplicaMap τ)

namespace Keyspaces

variable {τ : Type} [Token τ]

structure Progress (τ : Type) [Token τ] where
  /-- The replicas for each of the settings met. -/
  computed : List (Settings × ReplicaMap τ) := []
  maps : SortedMap String (ReplicaMap τ) := .empty
  events : List Event := []

namespace Progress

/-- Adds a keyspace, with the replicas known for its settings or else with new ones. -/
def add (ring : Ring τ) (progress : Progress τ) (keyspace : Keyspace) : Progress τ :=
  match progress.computed.find? fun c => c.1 = keyspace.settings with
  | some (_, replicas) =>
    { progress with maps := progress.maps.insert keyspace.name replicas }
  | none =>
    let placement := keyspace.strategy.place ring
    { computed := progress.computed ++ [(keyspace.settings, placement.replicas)]
      maps := progress.maps.insert keyspace.name placement.replicas
      events := progress.events ++ placement.events }

end Progress

/-- The replicas of keyspaces in list order, with the events of the computations. Of two keyspaces
with one name the later counts. -/
def build (ring : Ring τ) (keyspaces : List (String × Settings)) :
    Except InvalidKeyspace (Keyspaces τ × List Event) := do
  let checked ← keyspaces.mapM fun k => Keyspace.check k.1 k.2
  let result := checked.foldl (Progress.add ring) {}
  return (⟨ring, result.maps⟩,
    result.events ++ [.keyspacesBuilt result.maps.size result.computed.length ring.size])

def names (k : Keyspaces τ) : List String :=
  k.maps.keys

def replicas? (k : Keyspaces τ) (keyspace : String) (t : τ) : Option (List Node) :=
  (k.maps.get? keyspace).bind (·.replicasFor? t)

end Keyspaces

end TokenRing
