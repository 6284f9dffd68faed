import TokenRing.Text.Hex

/-!
# Nodes

The members of a cluster. A node is known by its identifier; its name and its labels only describe
it. Lists of nodes drop repeated identifiers, never repeated names.
-/

namespace TokenRing

/-- The identifier of a node: a number of 128 bits. -/
@[ext]
structure NodeId where
  value : Nat
  value_lt : value < 0x100000000000000000000000000000000
  deriving DecidableEq, Repr

namespace NodeId

instance : LE NodeId := ⟨fun a b => a.value ≤ b.value⟩

instance : LT NodeId := ⟨fun a b => a.value < b.value⟩

instance : DecidableLT NodeId := fun a b => inferInstanceAs (Decidable (a.value < b.value))

instance : Std.IsLinearOrder NodeId where
  le_refl a := Nat.le_refl a.value
  le_trans _ _ _ := Nat.le_trans
  le_antisymm _ _ h h' := NodeId.ext (Nat.le_antisymm h h')
  le_total a b := Nat.le_total a.value b.value

instance : Std.LawfulOrderLT NodeId where
  lt_iff a b := Std.LawfulOrderLT.lt_iff a.value b.value

def ofNat? (n : Nat) : Option NodeId :=
  if h : n < 0x100000000000000000000000000000000 then some ⟨n, h⟩ else none

def text (id : NodeId) : String :=
  String.ofList (Text.hexFixed 32 id.value)

end NodeId

structure Node where
  id : NodeId
  name : String
  datacenter : Option String
  rack : Option String
  deriving DecidableEq, Repr

namespace Node

/-- The name, followed by the labels in parentheses. A rack without a datacenter is not shown. -/
def text (node : Node) : String :=
  match node.datacenter, node.rack with
  | some dc, some rack => s!"{node.name} ({dc}/{rack})"
  | some dc, none => s!"{node.name} ({dc})"
  | none, _ => node.name

/-- The first node of each identifier, in order. -/
def distinct : List Node → List Node
  | [] => []
  | node :: rest => node :: (distinct rest).filter (·.id ≠ node.id)

/-- A node behind a list, unless its identifier is already there. -/
def append (nodes : List Node) (node : Node) : List Node :=
  if nodes.any (·.id = node.id) then nodes else nodes ++ [node]

end Node

end TokenRing
