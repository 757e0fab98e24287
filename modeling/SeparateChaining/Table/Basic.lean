import SeparateChaining.Chains.Place
import SeparateChaining.Cursor

/-!
# Hash tables

A table is its chains, its identity, the number of times it has grown, and a fence: while an
operation runs that calls foreign code, the fence names it. The table is that of a build with debug
assertions; the fence is compiled away in release builds.

This module holds what can be asked of a table without calling foreign code. A cursor is accepted
only by the table that issued it, only until that table grows, and only until its element is
removed; anything else is a panic.
-/

namespace SeparateChaining

structure Table (V : Type) where
  chains : Chains V
  id : Nat
  growths : Nat
  fence : Option Operation
  deriving Inhabited

namespace Table

variable {V : Type}

/-- A new table over empty buckets. -/
def ofBuckets (id : Nat) (b : Buckets) : Table V := ⟨.ofBuckets b, id, 0, none⟩

/-! ## Size -/

def size (t : Table V) : Nat := t.chains.size

def isEmpty (t : Table V) : Bool := t.size == 0

def bucketCount (t : Table V) : Nat := t.chains.bucketCount

/-- The number of elements chained in bucket `i`. -/
def bucketSize (t : Table V) (i : Nat) : Except Panic Nat :=
  if i < t.bucketCount then .ok (t.chains.chain i).length
  else .error (.bucketOutOfRange t.bucketCount i)

/-- The number of buckets that hold an element. -/
def occupied (t : Table V) : Nat := t.chains.buckets.occupied

/-- The size of each bucket that is not empty, ascending by bucket. -/
def occupancy (t : Table V) : List (Nat × Nat) :=
  (List.range t.bucketCount).filterMap fun i =>
    match t.chains.buckets.head i with
    | some _ => some (i, (t.chains.chain i).length)
    | none => none

/-- Elements per bucket. -/
def loadFactor (t : Table V) : Float32 := Float32.ofNat t.size / Float32.ofNat t.bucketCount

/-- The elements in traversal order: bucket by bucket, each chain from its head. -/
def values (t : Table V) : List V := t.chains.traversal.map (·.2.value)

/-! ## Cursors -/

def cursor (t : Table V) (l : Link) : Cursor := ⟨l, t.id, t.growths⟩

/-- The element that a cursor names, with its key. -/
def cell (t : Table V) (c : Cursor) : Except Panic (Cell V) :=
  if c.table ≠ t.id then .error .foreignCursor
  else if c.growths ≠ t.growths then .error .staleCursor
  else
    match c.node with
    | none => .error .endCursor
    | some k =>
      match t.chains.nodes.get? k with
      | some n => .ok (k, n)
      | none => .error .erasedElement

/-- The cursor to the first element in traversal order. -/
def firstCursor (t : Table V) : Cursor := t.cursor t.chains.first

def endCursor (t : Table V) : Cursor := t.cursor none

/-- The cursor after `c` in traversal order. -/
def next (t : Table V) (c : Cursor) : Except Panic Cursor :=
  (t.cell c).map fun cell => t.cursor (t.chains.successor cell.1)

def get (t : Table V) (c : Cursor) : Except Panic V :=
  (t.cell c).map fun cell => cell.2.value

/-- The elements met by moving from one cursor up to another, at most as many as the fuel says. -/
def walkUpTo (t : Table V) (stop : Cursor) : Nat → Cursor → Except Panic (List V)
  | 0, _ => .ok []
  | fuel + 1, c => do
    if ← c.same stop then return []
    let v ← t.get c
    return v :: (← t.walkUpTo stop fuel (← t.next c))

/-- The elements met by moving from one cursor up to another. -/
def walk (t : Table V) (start stop : Cursor) : Except Panic (List V) :=
  t.walkUpTo stop (t.chains.nodes.slots.size + 1) start

/-- Replaces the element at `c` by `f` of it. The cached hash stays as it was, so `f` should keep
the element's key. -/
def modify (t : Table V) (c : Cursor) (f : V → V) : Except Panic (Table V) :=
  (t.cell c).map fun cell =>
    { t with chains.nodes := t.chains.nodes.modify cell.1 fun n => { n with value := f n.value } }

end Table

end SeparateChaining
