import SeparateChaining.Chains.Buckets

/-!
# Chains

A table's elements sit in nodes. Each node caches the hash of its element's key and links to the
next node of its chain; each bucket links to the head of a chain. Nothing here calls foreign
code: a node's place follows from its cached hash alone.

`chain` reads one bucket's chain and `traversal` reads them all, bucket by bucket. A walk ends at
an empty link or at a link that resolves to no node. It takes at most one step more than the arena
has slots: a chain without repetitions is never cut short, and one that runs in a circle is cut
only after it has repeated a node.

`cellsFrom` lists the nodes that a walk meets. `forFrom` is the loop over that list
(`forFrom_eq_forIn`), made without the list: it visits no node after the one at which it is done.
-/

namespace SeparateChaining

structure Node (V : Type) where
  value : V
  /-- The hash of the key that the value had when it was inserted. -/
  hash : UInt64
  next : Link

/-- A node together with the key that names it. -/
abbrev Cell (V : Type) := ArenaKey × Node V

structure Chains (V : Type) where
  nodes : Arena (Node V)
  buckets : Buckets
  deriving Inhabited

namespace Chains

variable {V : Type}

/-- No nodes, over the buckets given. -/
def ofBuckets (b : Buckets) : Chains V := ⟨.empty, b⟩

/-- The number of elements. -/
def size (c : Chains V) : Nat := c.nodes.size

def bucketCount (c : Chains V) : Nat := c.buckets.size

/-- The nodes met from a link on, at most as many as the fuel says. -/
def follow (nodes : Arena (Node V)) : Nat → Link → List (Cell V)
  | _, none => []
  | 0, some _ => []
  | fuel + 1, some k =>
    match nodes.get? k with
    | some n => (k, n) :: follow nodes fuel n.next
    | none => []

/-- The nodes met from a link on. -/
def cellsFrom (c : Chains V) (l : Link) : List (Cell V) := follow c.nodes (c.nodes.slots.size + 1) l

/-- The chain of bucket `i`, from its head. -/
def chain (c : Chains V) (i : Nat) : List (Cell V) := c.cellsFrom (c.buckets.head i)

/-- A loop along links, over at most as many nodes as the fuel says. -/
@[specialize] def forLinks {m : Type → Type} [Monad m] {β : Type} (nodes : Arena (Node V))
    (f : Cell V → β → m (ForInStep β)) : Nat → Link → β → m β
  | fuel + 1, some k, b =>
    match nodes.get? k with
    | some n => do
      match ← f (k, n) b with
      | .done b => return b
      | .yield b => forLinks nodes f fuel n.next b
    | none => return b
  | _, _, b => return b

/-- A loop over the nodes met from a link on. Nodes after the one at which `f` is done are not
visited. -/
@[inline] def forFrom {m : Type → Type} [Monad m] {β : Type} (c : Chains V) (l : Link) (b : β)
    (f : Cell V → β → m (ForInStep β)) : m β :=
  forLinks c.nodes f (c.nodes.slots.size + 1) l b

/-- All chains, from bucket 0 on. -/
def traversal (c : Chains V) : List (Cell V) := (List.range c.bucketCount).flatMap c.chain

/-- The first node in traversal order. -/
def first (c : Chains V) : Link := c.buckets.firstFrom 0

/-- The node after the one named by `k` in traversal order. -/
def successor (c : Chains V) (k : ArenaKey) : Link :=
  match c.nodes.get? k with
  | none => none
  | some n =>
    match n.next with
    | some k' => some k'
    | none => c.buckets.firstFrom (c.buckets.home n.hash + 1)

@[simp] theorem follow_none (nodes : Arena (Node V)) (fuel : Nat) :
    follow nodes fuel none = [] := by
  cases fuel <;> rfl

theorem forLinks_eq_forIn {m : Type → Type} [Monad m] {β : Type} (nodes : Arena (Node V))
    (f : Cell V → β → m (ForInStep β)) (fuel : Nat) (l : Link) (b : β) :
    forLinks nodes f fuel l b = forIn (follow nodes fuel l) b f := by
  fun_induction follow nodes fuel l generalizing b with
  | case1 => simp [forLinks]
  | case2 => simp [forLinks]
  | case3 fuel k n h ih =>
    simp only [forLinks, h, List.forIn_cons]
    congr 1
    funext s
    cases s <;> simp [ih]
  | case4 fuel k h => simp [forLinks, h]

/-- A loop along links is the loop over the list of the nodes met. -/
theorem forFrom_eq_forIn {m : Type → Type} [Monad m] {β : Type} (c : Chains V) (l : Link) (b : β)
    (f : Cell V → β → m (ForInStep β)) : c.forFrom l b f = forIn (c.cellsFrom l) b f :=
  forLinks_eq_forIn ..

end Chains

end SeparateChaining
