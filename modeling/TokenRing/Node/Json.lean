import TokenRing.Json.Record
import TokenRing.Json.Writer
import TokenRing.Node

/-!
# Nodes as JSON

A node is a record of its identifier, a number, and its name and labels. A label that is null or
left out is none.
-/

namespace TokenRing

open Json

structure Node.Draft where
  id : Option NodeId := none
  name : Option String := none
  datacenter : Option (Option String) := none
  rack : Option (Option String) := none

def NodeId.read : Reader NodeId := fun text => do
  let (n, rest) ← readNatural 0xffffffffffffffffffffffffffffffff text
  match NodeId.ofNat? n with
  | some id => return (id, rest)
  | none => .error .malformed

namespace Node

def record : Record Draft Node where
  name := "Node"
  fields := [
    .ofReader "id" true (·.id) (fun d id => { d with id := some id }) NodeId.read,
    .ofReader "name" true (·.name) (fun d name => { d with name := some name }) readText,
    .ofReader "datacenter" false (·.datacenter)
      (fun d datacenter => { d with datacenter := some datacenter }) readOptionalText,
    .ofReader "rack" false (·.rack) (fun d rack => { d with rack := some rack })
      readOptionalText]
  blank := {}
  finish d := do
    let id ← require "id" d.id
    let name ← require "name" d.name
    return ⟨id, name, d.datacenter.join, d.rack.join⟩

def read : Reader Node :=
  record.read

def ofJson (document : String) : Except Fault Node :=
  readDocument read document.toList

def write (node : Node) : Writer :=
  writeMapping [
    ("id", writeNatural node.id.value),
    ("name", writeText node.name),
    ("datacenter", writeOptionalText node.datacenter),
    ("rack", writeOptionalText node.rack)]

def toJson (node : Node) : String :=
  String.ofList (node.write .compact 0)

end Node

end TokenRing
