import TokenRing.Json.Record
import TokenRing.Node.Identifier
import TokenRing.Ring.Builder
import TokenRing.Settings

/-!
# Snapshots of a cluster

A snapshot lists the nodes with their tokens, as texts, and the replication settings of each
keyspace. It is kept in a JSON document.
-/

namespace TokenRing

open Json

structure NodeEntry where
  id : String
  /-- Where there is none, the text of the identifier serves as the name. -/
  name : Option String
  datacenter : Option String
  rack : Option String
  tokens : List String
  deriving DecidableEq, Repr

structure Snapshot where
  nodes : List NodeEntry
  keyspaces : SortedMap String Settings
  deriving DecidableEq

/-! ### Reading -/

structure NodeEntry.Draft where
  id : Option String := none
  name : Option (Option String) := none
  datacenter : Option (Option String) := none
  rack : Option (Option String) := none
  tokens : Option (List String) := none

def NodeEntry.record : Record Draft NodeEntry where
  name := "NodeEntry"
  fields := [
    .ofReader "id" true (·.id) (fun d id => { d with id := some id }) readText,
    .ofReader "name" false (·.name) (fun d name => { d with name := some name })
      readOptionalText,
    .ofReader "datacenter" false (·.datacenter)
      (fun d datacenter => { d with datacenter := some datacenter }) readOptionalText,
    .ofReader "rack" false (·.rack) (fun d rack => { d with rack := some rack })
      readOptionalText,
    .ofReader "tokens" true (·.tokens) (fun d tokens => { d with tokens := some tokens })
      (readSequence readText)]
  blank := {}
  finish d := do
    let id ← require "id" d.id
    let tokens ← require "tokens" d.tokens
    return ⟨id, d.name.join, d.datacenter.join, d.rack.join, tokens⟩

/-- Reads replication settings. Of a repeated key the last value counts. -/
def Settings.read : Reader Settings := fun text =>
  (readMapping readText text).map fun r => (SortedMap.ofList r.1, r.2)

/-- Reads keyspaces. Of a repeated name the last settings count. -/
def readKeyspaces : Reader (SortedMap String Settings) := fun text =>
  (readMapping Settings.read text).map fun r => (SortedMap.ofList r.1, r.2)

namespace Snapshot

structure Draft where
  nodes : Option (List NodeEntry) := none
  keyspaces : Option (SortedMap String Settings) := none

/-- How a snapshot is written. It may have no keyspaces. -/
def record : Record Draft Snapshot where
  name := "Topology"
  fields := [
    .ofReader "nodes" true (·.nodes) (fun d nodes => { d with nodes := some nodes })
      (readSequence NodeEntry.record.read),
    .ofReader "keyspaces" false (·.keyspaces)
      (fun d keyspaces => { d with keyspaces := some keyspaces }) readKeyspaces]
  blank := {}
  finish d := do
    let nodes ← require "nodes" d.nodes
    return ⟨nodes, d.keyspaces.getD .empty⟩

def ofJson (document : String) : Except Fault Snapshot :=
  readDocument record.read document.toList

end Snapshot

/-! ### The ring -/

inductive RingFault (p : Partitioner) where
  | nodeId (text : String) (fault : NodeIdFault)
  /-- A text of a named node is no token. -/
  | token (node : String) (error : InvalidToken)
  | conflict (conflict : Conflict p.Token)

def NodeEntry.node (entry : NodeEntry) : Except NodeIdFault Node :=
  (NodeId.parse entry.id).map fun id =>
    ⟨id, entry.name.getD entry.id, entry.datacenter, entry.rack⟩

def NodeEntry.resolve (p : Partitioner) (entry : NodeEntry) :
    Except (RingFault p) (Node × List p.Token) := do
  let node ← entry.node.mapError (.nodeId entry.id ·)
  let tokens ← (p.parseAll entry.tokens).mapError (.token node.name ·)
  return (node, tokens)

/-- The ring of the nodes. All texts are read before conflicts are considered. -/
def Snapshot.ring (p : Partitioner) (snapshot : Snapshot) :
    Except (RingFault p) (Ring p.Token) := do
  let nodes ← snapshot.nodes.mapM (NodeEntry.resolve p)
  let builder := nodes.foldl (fun b n => b.addTokens n.1 n.2) ({} : Builder p.Token)
  builder.build.mapError .conflict

end TokenRing
