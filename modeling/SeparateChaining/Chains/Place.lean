import SeparateChaining.Chains.Basic

/-!
# Places in chains

A link is stored in one of two places: at the head of a bucket, or in the node before. Linking and
unlinking a node are the same change at either: the link stored at a place is led to the node, or
past it.
-/

namespace SeparateChaining.Chains

variable {V : Type}

/-- Where a link is stored. -/
inductive Place
  | head (bucket : Nat)
  | after (node : ArenaKey)
  deriving DecidableEq, Repr

def linkAt (c : Chains V) : Place → Link
  | .head i => c.buckets.head i
  | .after p => (c.nodes.get? p).bind (·.next)

def setLink (c : Chains V) : Place → Link → Chains V
  | .head i, l => { c with buckets := c.buckets.setHead i l }
  | .after p, l => { c with nodes := c.nodes.modify p fun n => { n with next := l } }

/-- Whether a node links to the node named by `k`. -/
def linksTo (n : Node V) (k : ArenaKey) : Bool :=
  match n.next with
  | some next => next = k
  | none => false

/-- The place of the link to the node named by `k` on the chain of its home bucket: the head, or
the first node that links to it. -/
def placeOf? (c : Chains V) (k : ArenaKey) : Option Place :=
  match c.nodes.get? k with
  | none => none
  | some n =>
    let i := c.buckets.home n.hash
    if c.buckets.head i = some k then some (.head i)
    else Id.run <| c.forFrom (c.buckets.head i) none fun (p, n) _ =>
      pure <| if linksTo n k then .done (some (.after p)) else .yield none

/-- Puts a value into a new node that takes over the link stored at a place, and stores the link
to the new node there. -/
def insertAt (c : Chains V) (p : Place) (value : V) (hash : UInt64) : ArenaKey × Chains V :=
  let (k, nodes) := c.nodes.insert ⟨value, hash, c.linkAt p⟩
  (k, setLink { c with nodes } p (some k))

/-- Takes the node named by `k` off its chain, where the link to it is stored at `p`. -/
def bypass (c : Chains V) (p : Place) (k : ArenaKey) : Chains V := c.setLink p (c.linkAt (.after k))

/-- Deletes the node named by `k`, and hands back its value. -/
def delete (c : Chains V) (k : ArenaKey) : Option V × Chains V :=
  let ⟨nodes, buckets⟩ := c
  let (n, nodes) := nodes.remove k
  (n.map (·.value), ⟨nodes, buckets⟩)

end SeparateChaining.Chains
