import TokenRing.Partitioner
import TokenRing.Ring.Basic
import TokenRing.SortedMap
import TokenRing.Text.Decimal

/-!
# Building a ring

A ring is built from registrations of nodes and their tokens. The first record of a node and the
first claim to a token stand. A later one that disagrees is a conflict; the first conflict is kept,
and with it no ring can be built.
-/

namespace TokenRing

inductive Conflict (τ : Type) where
  /-- One identifier came with two different records. -/
  | record (existing conflicting : Node)
  /-- One token was claimed by two nodes. -/
  | token (token : τ) (existing conflicting : NodeId)
  deriving DecidableEq, Repr

def Conflict.message {τ : Type} [Token τ] : Conflict τ → String
  | .record existing conflicting =>
    s!"Node {existing.id.text} registered as both {existing.text} and {conflicting.text}"
  | .token t existing conflicting =>
    s!"Token {Token.text t} is owned by both node {existing.text} and node {conflicting.text}"

structure Builder (τ : Type) [Token τ] where
  /-- The first record of each node, in order of registration. -/
  records : List Node := []
  /-- The first claimant of each token. -/
  claims : SortedMap τ NodeId := .empty
  /-- The first conflict. -/
  conflict : Option (Conflict τ) := none
  /-- How many tokens are generated for a node that comes with no number of its own. -/
  vnodes : Nat := 256

namespace Builder

variable {τ : Type} [Token τ]

def record? (b : Builder τ) (id : NodeId) : Option Node :=
  b.records.find? (·.id = id)

/-- Keeps a conflict, unless there is one already. -/
def report (b : Builder τ) (conflict : Conflict τ) : Builder τ :=
  { b with conflict := b.conflict <|> some conflict }

def register (b : Builder τ) (node : Node) : Builder τ :=
  match b.record? node.id with
  | none => { b with records := b.records ++ [node] }
  | some existing => if existing = node then b else b.report (.record existing node)

def claim (b : Builder τ) (id : NodeId) (t : τ) : Builder τ :=
  match b.claims.get? t with
  | none => { b with claims := b.claims.insert t id }
  | some existing => if existing = id then b else b.report (.token t existing id)

def addTokens (b : Builder τ) (node : Node) (tokens : List τ) : Builder τ :=
  tokens.foldl (·.claim node.id) (b.register node)

def addToken (b : Builder τ) (t : τ) (node : Node) : Builder τ :=
  (b.register node).claim node.id t

def withVnodes (b : Builder τ) (count : Nat) : Builder τ :=
  { b with vnodes := count }

def owned (b : Builder τ) : List (τ × Node) :=
  b.claims.entries.filterMap fun (t, id) => (b.record? id).map (t, ·)

/-- An owned token is claimed by the identifier of a node that is on record. -/
theorem mem_owned {b : Builder τ} {e : τ × Node} (h : e ∈ b.owned) :
    (e.1, e.2.id) ∈ b.claims.entries ∧ b.record? e.2.id = some e.2 := by
  obtain ⟨⟨t, id⟩, mem, eq⟩ := List.mem_filterMap.1 h
  obtain ⟨node, found, rfl⟩ := Option.map_eq_some_iff.1 eq
  obtain rfl : node.id = id := of_decide_eq_true (List.find?_some found :)
  exact ⟨mem, found⟩

theorem pairwise_owned (b : Builder τ) : b.owned.Pairwise (·.1 < ·.1) := by
  refine b.claims.ascending.filterMap _ fun a a' lt e he e' he' => ?_
  obtain ⟨_, _, rfl⟩ := Option.map_eq_some_iff.1 he
  obtain ⟨_, _, rfl⟩ := Option.map_eq_some_iff.1 he'
  exact lt

def build (b : Builder τ) : Except (Conflict τ) (Ring τ) :=
  match b.conflict with
  | some conflict => .error conflict
  | none => .ok {
      entries := b.owned.toArray
      ascending := by simpa using b.pairwise_owned
      one_record := by
        intro x hx y hy same
        have hx := (mem_owned (List.mem_toArray.1 hx)).2
        have hy := (mem_owned (List.mem_toArray.1 hy)).2
        rw [same, hy] at hx
        exact (Option.some.inj hx).symm }

end Builder

/-- The key whose hash is a generated token of a node. -/
def vnodeKey (id : NodeId) (index : Nat) : List UInt8 :=
  Text.utf8 (Text.hexFixed 32 id.value ++ ':' :: Text.decimal index)

def Partitioner.vnodeTokens (p : Partitioner) (id : NodeId) (count : Nat) : List p.Token :=
  (List.range count).map fun i => p.ofKey (vnodeKey id i)

inductive Step (p : Partitioner) where
  | addToken (token : p.Token) (node : Node)
  | addTokens (node : Node) (tokens : List p.Token)
  | withVnodes (count : Nat)
  /-- A node with as many generated tokens as was set. -/
  | addNode (node : Node)
  | addNodeWithVnodes (node : Node) (count : Nat)

namespace Builder

variable {p : Partitioner}

def step (b : Builder p.Token) : Step p → Builder p.Token
  | .addToken t node => b.addToken t node
  | .addTokens node tokens => b.addTokens node tokens
  | .withVnodes count => b.withVnodes count
  | .addNode node => b.addTokens node (p.vnodeTokens node.id b.vnodes)
  | .addNodeWithVnodes node count => b.addTokens node (p.vnodeTokens node.id count)

def run (steps : List (Step p)) : Builder p.Token :=
  steps.foldl step {}

end Builder

end TokenRing
