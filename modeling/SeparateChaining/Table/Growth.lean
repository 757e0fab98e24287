import SeparateChaining.Chains.Move
import SeparateChaining.Environment.Op

/-!
# Growth

A table grows by moving every node to a larger bucket array. The new array is granted in full
before any node moves, so a refused growth leaves the table exactly as it was. Nodes are relinked,
never copied, and no key is hashed again. Growth ends the validity of every cursor issued before
it, from the moment when it is complete; a table never shrinks.
-/

namespace SeparateChaining.Table

variable {V K W : Type}

/-- Moves every node to the bucket array `target`. The array that the nodes leave is handed back. -/
def moveTo (t : Table V) (target : Buckets) : Except Panic (Buckets × Table V) :=
  match t.chains.moveTo target with
  | .ok (chains, old) => .ok (old, { t with chains })
  | .error p => .error p

/-- Counts a growth, and so ends the validity of all cursors to the table. -/
def counted (t : Table V) : Table V := { t with growths := t.growths + 1 }

/-- Grows the table to `target` buckets. The growth is counted once the old array is released: if
that panics, the nodes have moved and the cursors to them are still valid. -/
def growTo (env : Environment V K W) (target : Nat) : Op W V (Except AllocError Unit) := do
  match ← .world (env.allocateBuckets target) with
  | .error e => return .error e
  | .ok fresh =>
    let current ← .read (·.bucketCount)
    let old ← .update fun t => t.moveTo fresh
    .world (env.releaseBuckets old)
    .change fun t => ((), t.counted)
    let len ← .read (·.size)
    .world (env.notice (.grew current target len))
    return .ok ()

/-- Grows the table so that `hint` elements fit one to a bucket, unless they do already. -/
def rehash (env : Environment V K W) (hint : Nat) : Op W V (Except AllocError Unit) := do
  let current ← .read (·.bucketCount)
  if hint ≤ current then
    return .ok ()
  else
    let target ← .world (env.fitBuckets hint)
    if target ≤ current then return .ok () else .fenced .rehash (growTo env target)

/-- Makes room for `additional` more elements, so that inserting them does not grow the table. -/
def reserve (env : Environment V K W) (additional : Nat) : Op W V (Except AllocError Unit) := do
  let hint := (← .read (·.size)) + additional
  if countLimit ≤ hint then return .error .capacityOverflow else rehash env hint

def rehash! (env : Environment V K W) (hint : Nat) : Op W V Unit := (rehash env hint).infallible

def reserve! (env : Environment V K W) (additional : Nat) : Op W V Unit :=
  (reserve env additional).infallible

end SeparateChaining.Table
