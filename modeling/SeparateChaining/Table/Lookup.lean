import SeparateChaining.Environment.Op
import SeparateChaining.Table.Iterator

/-!
# Looking up keys

A key is hashed once and sought on the chain of its home bucket only; in a table without buckets
it is hashed and then cannot be sought. A node matches when its cached hash equals the hash sought
and its key compares equal; keys behind other hashes are not compared at all. `search` stops at
the first match. `runOf` goes on from there: the run of a key is the longest stretch of the chain,
from the first match on, in which every node matches.
-/

namespace SeparateChaining.Table

variable {V K W : Type}

/-- Whether a node's key equals `q`, whose hash is `hash`. -/
@[inline] def nodeMatches (env : Environment V K W) (hash : UInt64) (q : K) (n : Node V) :
    Op W V Bool := do
  if n.hash = hash then
    let k ← env.extractOp n.value
    env.keyEqOp k q
  else
    return false

/-- The bucket to which a key of hash `hash` belongs, if there are buckets. -/
def home (t : Table V) (hash : UInt64) : Except Panic Nat :=
  if t.bucketCount = 0 then .error .noBuckets else .ok (t.chains.buckets.home hash)

theorem home_eq_ok {t : Table V} (h : 0 < t.bucketCount) (hash : UInt64) :
    t.home hash = .ok (t.chains.buckets.home hash) := by
  simp [home, Nat.ne_of_gt h]

/-- Whether the seeking of a first match ends at a node. -/
@[inline] def seekAt (env : Environment V K W) (hash : UInt64) (q : K) (cell : Cell V)
    (_ : Option ArenaKey) : Op W V (ForInStep (Option ArenaKey)) := do
  if ← nodeMatches env hash q cell.2 then return .done (some cell.1) else return .yield none

/-- The hash of `q` and the first node that matches. -/
def search (env : Environment V K W) (q : K) : Op W V (UInt64 × Option ArenaKey) := do
  let hash ← env.hashOp q
  let i ← .query (·.home hash)
  let c ← .read (·.chains)
  return (hash, ← c.forFrom (c.buckets.head i) none (seekAt env hash q))

/-- The elements with one key: the first node, the last, and how many they are. -/
structure Run where
  first : ArenaKey
  last : ArenaKey
  count : Nat
  deriving DecidableEq, Repr

/-- Extends a run by a node that matches, or ends it. -/
@[inline] def extendRun (env : Environment V K W) (hash : UInt64) (q : K) (cell : Cell V)
    (r : Run) : Op W V (ForInStep Run) := do
  if ← nodeMatches env hash q cell.2 then
    return .yield { r with last := cell.1, count := r.count + 1 }
  else
    return .done r

/-- The run of `q`, if any node matches. -/
def runOf (env : Environment V K W) (q : K) : Op W V (Option Run) := do
  match ← search env q with
  | (_, none) => return none
  | (hash, some k) =>
    let c ← .read (·.chains)
    return some (← c.forFrom (some k) ⟨k, k, 0⟩ (extendRun env hash q))

/-! ## Operations -/

/-- The cursor to the first element with key `q`, or the end. -/
def find (env : Environment V K W) (q : K) : Op W V Cursor := .fenced .find do
  let (_, k) ← search env q
  .read (·.cursor k)

def contains (env : Environment V K W) (q : K) : Op W V Bool := do
  return !(← find env q).isEnd

/-- The number of elements in the run of `q`. -/
def count (env : Environment V K W) (q : K) : Op W V Nat := .fenced .count do
  return ((← runOf env q).map (·.count)).getD 0

/-- The cursors to the first element of the run of `q` and to the element after its last. Both are
the end if there is none. -/
def range (env : Environment V K W) (q : K) : Op W V (Cursor × Cursor) := .fenced .range do
  match ← runOf env q with
  | some r => .read fun t => (t.cursor (some r.first), t.cursor (t.chains.successor r.last))
  | none => .read fun t => (t.endCursor, t.endCursor)

/-- An iterator over the run of `q`. -/
def iteratorOf (env : Environment V K W) (q : K) : Op W V (Iterator V) := .fenced .iteratorOf do
  match ← runOf env q with
  | some r => .read fun t => ⟨t.chains, some r.first, t.chains.successor r.last, r.count⟩
  | none => .read fun t => ⟨t.chains, none, none, 0⟩

/-- The bucket that `q` belongs to. -/
def homeBucket (env : Environment V K W) (q : K) : Op W V Nat := .fenced .homeBucket do
  let hash ← env.hashOp q
  .query (·.home hash)

end SeparateChaining.Table
