import TokenRing.CommandLine.Arguments
import TokenRing.Keyspaces
import TokenRing.Node.Json
import TokenRing.Snapshot

/-!
# Reports

What the commands answer about a snapshot, and why they fail. The ring is built before a command
looks at anything else.
-/

namespace TokenRing

inductive Failure where
  /-- There is no such file, or it is not a text in UTF-8. -/
  | unreadable (path : String)
  | notASnapshot (path : String) (fault : Json.Fault)
  | ring (partitioner : Partitioner) (fault : RingFault partitioner)
  | unknownKeyspace (name : String)
  /-- The settings of a keyspace describe no strategy, in a list of all keyspaces. -/
  | settings (keyspace : String) (error : SettingsError)
  /-- The settings of the keyspace that was asked for describe no strategy. -/
  | keyspace (error : InvalidKeyspace)

inductive Cause where
  | unreadable
  | document (fault : Json.Fault)
  | nodeId (fault : NodeIdFault)
  | token (error : InvalidToken)
  | settings (error : SettingsError)

def Cause.message : Cause → String
  | unreadable => "the file cannot be read as a text"
  | document fault => fault.message
  | nodeId (.number fault) => fault.message
  | nodeId .notUuid => "not a UUID"
  | token error => error.message
  | settings error => error.message

def RingFault.message {p : Partitioner} : RingFault p → String
  | nodeId text (.number _) => s!"invalid node id {text}"
  | nodeId text .notUuid => s!"invalid node id {text}: expected a UUID or a decimal integer"
  | token node _ => s!"node {node}"
  | conflict c => c.message

namespace Failure

def message : Failure → String
  | unreadable path => s!"failed to read topology file {path}"
  | notASnapshot path _ => s!"invalid topology file {path}"
  | ring _ fault => fault.message
  | unknownKeyspace name => s!"unknown keyspace {name}"
  | settings name _ => s!"keyspace {name}"
  | keyspace error => error.message

/-- What lies behind a failure, where its own wording does not say all. -/
def cause? : Failure → Option Cause
  | unreadable _ => some .unreadable
  | notASnapshot _ fault => some (.document fault)
  | ring _ (.nodeId _ fault) => some (.nodeId fault)
  | ring _ (.token _ error) => some (.token error)
  | ring _ (.conflict _) => none
  | unknownKeyspace _ => none
  | settings _ error => some (.settings error)
  | keyspace error => some (.settings error.cause)

end Failure

namespace Report

variable {τ : Type} [Token τ]

def names (nodes : List Node) : String :=
  String.intercalate ", " (nodes.map (·.name))

def lines (texts : List String) : String :=
  String.join (texts.map (· ++ "\n"))

def ring (ring : Ring τ) : String :=
  lines (s!"{ring.size} tokens, {ring.nodeCount} nodes" ::
    ring.ranges.map fun (range, owner) => s!"{range.text}  {owner.text}")

def keyspace (name : String) (settings : Settings) : Except Failure String := do
  let strategy ← (Strategy.ofSettings settings).mapError (.settings name ·)
  let others := settings.entries.filter fun e => e.1 ≠ Settings.classKey
  let others := String.intercalate " " (others.map fun (key, value) => s!"{key}={value}")
  return s!"{name}  {strategy.strategyClass.name}  {others}"

def keyspaces (snapshot : Snapshot) : Except Failure String :=
  (snapshot.keyspaces.entries.mapM fun (name, settings) => keyspace name settings).map lines

def replicas (replicas : ReplicaMap τ) : String :=
  lines (replicas.entries.map fun (t, nodes) => s!"{Token.text t}  {names nodes}")

def replicasJson (replicas : ReplicaMap τ) : String :=
  let row (t : τ) (nodes : List Node) : Json.Writer :=
    Json.writeSequence [Json.writeText (Token.text t), Json.writeSequence (nodes.map Node.write)]
  let rows := replicas.entries.map fun (t, nodes) => row t nodes
  lines [String.ofList (Json.writeSequence rows .pretty 0)]

def route (t : τ) (nodes : List Node) : String :=
  lines [s!"token: {Token.text t}", s!"replicas: {names nodes}"]

end Report

def Snapshot.replicas {τ : Type} [Token τ] (snapshot : Snapshot) (ring : Ring τ)
    (keyspace : String) : Except Failure (Keyspaces τ × List Event) :=
  match snapshot.keyspaces.get? keyspace with
  | none => .error (.unknownKeyspace keyspace)
  | some settings => (Keyspaces.build ring [(keyspace, settings)]).mapError .keyspace

structure Answer where
  output : String
  events : List Event := []
  deriving DecidableEq, Repr

def Command.execute (command : Command) (p : Partitioner) (snapshot : Snapshot) :
    Except Failure Answer := do
  let ring ← (snapshot.ring p).mapError (.ring p ·)
  match command with
  | .ring => return { output := Report.ring ring }
  | .keyspaces => return { output := ← Report.keyspaces snapshot }
  | .replicas keyspace json =>
    let (placed, events) ← snapshot.replicas ring keyspace
    let replicas := (placed.maps.get? keyspace).getD .empty
    let output := if json then Report.replicasJson replicas else Report.replicas replicas
    return { output, events }
  | .route keyspace key =>
    let (placed, events) ← snapshot.replicas ring keyspace
    let t := p.ofKey (Text.utf8 key.toList)
    let nodes := (placed.replicas? keyspace t).getD []
    return { output := Report.route t nodes, events }

/-- What the program answers, given the content of the file where there is one. -/
def Invocation.answer (invocation : Invocation) (content : Option ByteArray) :
    Except Failure Answer := do
  let some document := content.bind String.fromUTF8?
    | .error (.unreadable invocation.topology)
  let snapshot ← (Snapshot.ofJson document).mapError (.notASnapshot invocation.topology ·)
  invocation.command.execute invocation.partitioner snapshot

end TokenRing
