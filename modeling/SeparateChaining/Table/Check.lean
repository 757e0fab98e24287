import SeparateChaining.Chains.Placement
import SeparateChaining.Table.Lookup

/-!
# Checking a table

A check of a table against everything it promises, structure first: the bucket count is a rung
of the ladder, there are no more elements than buckets, every node is on the chain of its home
bucket and on no other, every cached hash is the hash of the key as it is now, and on every chain
equal keys stand side by side. The check stops at the first promise that is broken, so foreign
code runs only on a table whose chains are sound.
-/

namespace SeparateChaining.Table

variable {V K W : Type}

/-- Whether each node's cached hash is the hash of its key. -/
def hashesCurrent (env : Environment V K W) : List (Cell V) → Op W V Bool
  | [] => return true
  | (_, n) :: cells => do
    let hash ← env.hashOp (← env.extractOp n.value)
    if hash = n.hash then hashesCurrent env cells else return false

/-- Whether the values whose keys equal `k` come before all others. `left` says that another value
has come already. -/
def equalComeFirst (env : Environment V K W) (k : K) (left : Bool) : List V → Op W V Bool
  | [] => return true
  | v :: vs => do
    let same ← env.keyEqOp k (← env.extractOp v)
    if same && left then return false else equalComeFirst env k (left || !same) vs

/-- Whether, after each value, those with an equal key come before all others. -/
def runsContiguous (env : Environment V K W) : List V → Op W V Bool
  | [] => return true
  | v :: vs => do
    let k ← env.extractOp v
    if ← equalComeFirst env k false vs then runsContiguous env vs else return false

/-- Whether `p` holds of the chains of all buckets listed. It is not asked again after it failed. -/
def allChains (p : List (Cell V) → Op W V Bool) : List Nat → Op W V Bool
  | [] => return true
  | i :: is => do
    if ← p (← .read (·.chains.chain i)) then allChains p is else return false

/-- Whether the structure of the table is sound. -/
def isSound (t : Table V) : Bool :=
  Ladder.isRung t.bucketCount && t.size ≤ t.bucketCount && t.chains.wellPlaced

/-- Whether the table keeps all its promises. -/
def check (env : Environment V K W) : Op W V Bool := .fenced .check do
  let buckets ← .read fun t => List.range t.bucketCount
  if !(← .read (·.isSound)) then
    return false
  else if !(← allChains (hashesCurrent env) buckets) then
    return false
  else
    allChains (fun cells => runsContiguous env (cells.map (·.2.value))) buckets

end SeparateChaining.Table
