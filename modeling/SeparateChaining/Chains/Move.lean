import SeparateChaining.Chains.Basic
import SeparateChaining.Panic

/-!
# Moving to another bucket array

All nodes are moved from one bucket array to another, bucket by bucket and each chain from its
head. A node is pushed onto the head of its new chain, so the nodes of a new chain stand in the
reverse of the order in which they were met. The array that the nodes leave ends up empty.
-/

namespace SeparateChaining.Chains

variable {V : Type}

/-- Pushes the nodes met from a link on, one after the other, onto the heads of their homes in
`target`. A link that leads to no node, or a chain longer than the fuel, is a panic. -/
def pushAll : Nat → Link → Arena (Node V) → Buckets → Except Panic (Arena (Node V) × Buckets)
  | _, none, nodes, target => .ok (nodes, target)
  | 0, some _, _, _ => .error .brokenChain
  | fuel + 1, some k, nodes, target =>
    match nodes.get? k with
    | none => .error .brokenChain
    | some n =>
      let i := target.home n.hash
      pushAll fuel n.next (nodes.modify k fun n => { n with next := target.head i })
        (target.setHead i (some k))

/-- The state of a move between two bucket arrays. -/
structure Move (V : Type) where
  nodes : Arena (Node V)
  source : Buckets
  target : Buckets

/-- Moves the chain of bucket `i` of the source. -/
def Move.bucket (m : Move V) (i : Nat) : Except Panic (Move V) :=
  let (head, source) := m.source.detach i
  match pushAll (m.nodes.slots.size + 1) head m.nodes m.target with
  | .ok (nodes, target) => .ok ⟨nodes, source, target⟩
  | .error p => .error p

/-- Moves every node to the bucket array `target`. The array that the nodes leave comes second. -/
def moveTo (c : Chains V) (target : Buckets) : Except Panic (Chains V × Buckets) :=
  match (List.range c.bucketCount).foldlM Move.bucket (Move.mk c.nodes c.buckets target) with
  | .ok m => .ok (⟨m.nodes, m.target⟩, m.source)
  | .error p => .error p

end SeparateChaining.Chains
