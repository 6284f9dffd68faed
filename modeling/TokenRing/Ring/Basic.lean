import TokenRing.Bisect
import TokenRing.Node
import TokenRing.TokenRange

/-!
# Rings

A ring is its tokens in ascending order, each with the node that owns it. Behind the last token
the ring goes on at the first. A token that is not on the ring belongs to the owner of the next
one that is.
-/

namespace TokenRing

/-- Tokens with their owners. A node has one record, however many tokens it owns. -/
@[ext]
structure Ring (τ : Type) [Token τ] where
  entries : Array (τ × Node)
  ascending : entries.toList.Pairwise (·.1 < ·.1)
  one_record : ∀ a ∈ entries, ∀ b ∈ entries, a.2.id = b.2.id → a.2 = b.2

namespace Ring

variable {τ : Type} [Token τ]

def empty : Ring τ where
  entries := #[]
  ascending := .nil
  one_record := by simp

def size (ring : Ring τ) : Nat :=
  ring.entries.size

def isEmpty (ring : Ring τ) : Bool :=
  ring.entries.isEmpty

def tokens (ring : Ring τ) : List τ :=
  ring.entries.toList.map (·.1)

def owners (ring : Ring τ) : List Node :=
  ring.entries.toList.map (·.2)

/-- The entry at an index, counted on around the ring. -/
def entryAt? (ring : Ring τ) (index : Nat) : Option (τ × Node) :=
  ring.entries[index % ring.size]?

def tokenAt? (ring : Ring τ) (index : Nat) : Option τ :=
  (ring.entryAt? index).map (·.1)

def ownerAt? (ring : Ring τ) (index : Nat) : Option Node :=
  (ring.entryAt? index).map (·.2)

def countBefore (ring : Ring τ) (t : τ) : Nat :=
  bisect (fun i => ring.entries[i]?.all fun e => t ≤ e.1) 0 ring.size

def indexOf? (ring : Ring τ) (t : τ) : Option Nat :=
  let i := ring.countBefore t
  if ring.entries[i]?.any fun e => e.1 = t then some i else none

/-- The index of the token that a token belongs to: the first one from it on, or the first of the
ring where there is none. -/
def ownerIndex? (ring : Ring τ) (t : τ) : Option Nat :=
  if ring.isEmpty then none
  else
    let i := ring.countBefore t
    some (if i = ring.size then 0 else i)

def ownerOf? (ring : Ring τ) (t : τ) : Option Node :=
  (ring.ownerIndex? t).bind ring.ownerAt?

/-- The nodes of the ring in the order of their first tokens. -/
def nodes (ring : Ring τ) : List Node :=
  Node.distinct ring.owners

def nodeCount (ring : Ring τ) : Nat :=
  (ring.owners.map (·.id)).eraseDups.length

/-- Every token's range, from the token before it to itself, with the owner. -/
def ranges (ring : Ring τ) : List (TokenRange τ × Node) :=
  (List.finRange ring.size).map fun (i : Fin ring.entries.size) =>
    have bound : (i.val + ring.size - 1) % ring.size < ring.entries.size := Nat.mod_lt _ i.pos
    let before := ring.entries[(i.val + ring.size - 1) % ring.size]
    (⟨before.1, ring.entries[i].1⟩, ring.entries[i].2)

def rangesContaining (ring : Ring τ) (t : τ) : List Nat :=
  ring.ranges.zipIdx.filterMap fun (r, i) => if r.1.contains t then some i else none

end Ring

end TokenRing
