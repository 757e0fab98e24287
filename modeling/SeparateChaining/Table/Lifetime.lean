import SeparateChaining.Table.Removal

/-!
# Creating, copying and releasing tables

A table's storage is granted when it is created or copied and returned in full when it is
released. The values of a copy are made before anything is granted for it, and on release the
storage is returned before any value is disposed of, so a panic in either leaves no grant behind.

A copy has the hasher, the extractor and the key equality of its original. Where these are values
that must be cloned for it, that is done after the storage is granted, and a panic of such a clone
leaves the grants behind. Those clones are left out here: the three are taken over as they are.
-/

namespace SeparateChaining.Table

variable {V K W : Type}

/-- A table with identity `id` that `capacity` elements fit into. -/
def create (sup : Supply W) (V : Type) (id capacity : Nat) :
    EStateM Panic W (Except AllocError (Table V)) := do
  return (← sup.allocateBuckets (← sup.fitBuckets capacity)).map (ofBuckets id)

/-- Likewise, where a refusal is a panic. -/
def create! (sup : Supply W) (V : Type) (id capacity : Nat) : EStateM Panic W (Table V) := do
  match ← create sup V id capacity with
  | .ok t => return t
  | .error e => throw (.allocationFailed e)

/-- The values in the order of their slots. -/
def slotValues (t : Table V) : List V := t.chains.nodes.toList.map (·.value)

/-- Copies of values, in order. When copying one panics, the copies made so far, which `made` lists
last first, are disposed of. -/
def copyAll (env : Environment V K W) (made : List V) : List V → Op W V (List V)
  | [] => return made.reverse
  | v :: vs => do
    let v ← (env.copyOp v).onPanic fun t w =>
      made.reverse.foldl (fun w v => env.disposeUnwinding t v w) w
    copyAll env (v :: made) vs

/-- Grants storage for a copy of the table, or nothing. -/
def grantCopy (env : Environment V K W) : Op W V (Except AllocError Unit) := do
  let (len, buckets) ← .read fun t => (t.size, t.bucketCount)
  match ← .world (env.request .bucket buckets) with
  | .error e => return .error e
  | .ok () =>
    match ← .world (env.request .node len) with
    | .ok () => return .ok ()
    | .error e =>
      .world (env.deallocate .bucket buckets)
      return .error e

/-- The table with other values, listed in the order of their slots, and another identity. -/
def withValues (t : Table V) (id : Nat) (vs : List V) : Table V where
  chains := ⟨t.chains.nodes.refill (fun n v => { n with value := v }) vs, t.chains.buckets⟩
  id
  growths := 0
  fence := none

/-- A copy of the table with identity `id`: the same buckets and chains, and none of its cursors. -/
def copy (env : Environment V K W) (id : Nat) : Op W V (Table V) := do
  let vs ← copyAll env [] (← .read (·.slotValues))
  match ← env.holdingAll vs (grantCopy env) with
  | .error e =>
    env.disposeAll vs
    throw (.allocationFailed e)
  | .ok () => .read (·.withValues id vs)

/-! ## Release -/

/-- Takes all buckets from the table. Its nodes stay in the arena, and no chain leads to them. -/
def takeBuckets : Op W V Buckets := .change fun t =>
  let ⟨nodes, buckets⟩ := t.chains
  (buckets, { t with chains := ⟨nodes, default⟩ })

/-- Returns the storage of buckets that are given up, and of as many nodes. -/
def returnStorage (sup : Supply W) (buckets : Buckets) (nodes : Nat) : EStateM Panic W Unit := do
  sup.releaseBuckets buckets.emptied
  if nodes = 0 then return () else sup.deallocate .node nodes

/-- Disposes of the values that the table still holds, while a panic unwinds. -/
def disposeHeld (env : Environment V K W) (t : Table V) (w : W) : W :=
  t.slotValues.foldl (fun w v => env.disposeUnwinding t v w) w

/-- Deletes the nodes named and disposes of their values, one by one; when one panics, the values
still held go as the panic unwinds. -/
def releaseNodes (env : Environment V K W) : List ArenaKey → Op W V Unit
  | [] => return ()
  | k :: ks => do
    (← takeNode k).forM fun v => (env.disposeOp v).onPanic (disposeHeld env)
    releaseNodes env ks

/-- Returns the table's storage and disposes of its values in the order of their slots. The code
that disposes of one sees a table without buckets, whose nodes are those that are yet to go. -/
def release (env : Environment V K W) : Op W V Unit := do
  let (nodes, keys) ← .read fun t => (t.size, t.chains.nodes.keys)
  let buckets ← takeBuckets
  (Op.world (returnStorage env.toSupply buckets nodes)).onPanic (disposeHeld env)
  releaseNodes env keys

end SeparateChaining.Table
