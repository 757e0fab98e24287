import SeparateChaining.Table.Lookup

/-!
# Removal

An element is taken off its chain and its node deleted before its value is disposed of, and its
storage is returned before that too: a panic while disposing of it finds the table complete
without it. Removing elements leaves bucket count and growths alone, so cursors to other elements
stay valid.
-/

namespace SeparateChaining.Table

variable {V K W : Type}

/-- Deletes the node named by `k` from the arena and hands back its value. -/
def takeNode (k : ArenaKey) : Op W V (Option V) := .change fun t =>
  let (v, chains) := t.chains.delete k
  (v, { t with chains })

/-- Deletes a node that no chain leads to, returns its storage and hands back its value. -/
def deleteNode (env : Environment V K W) (k : ArenaKey) : Op W V (Option V) := do
  match ← takeNode k with
  | none => return none
  | some v =>
    env.holding v (.world (env.deallocate .node 1))
    return some v

/-- Unlinks and deletes the node named by `k`. -/
def removeNode (env : Environment V K W) (k : ArenaKey) : Op W V (Option V) := do
  match ← .read (·.chains.placeOf? k) with
  | none => return none
  | some p =>
    .change fun t => ((), { t with chains := t.chains.bypass p k })
    deleteNode env k

/-- Removes the element at `c` in the name of `op`: the cursor after it, and its value. -/
def removeAt (env : Environment V K W) (op : Operation) (c : Cursor) : Op W V (Cursor × V) := do
  let (k, _) ← .query (·.cell c)
  .fenced op do
    let next ← .read fun t => t.cursor (t.chains.successor k)
    match ← removeNode env k with
    | some v => return (next, v)
    | none => throw .unlinkedNode

/-- Removes the element at `c`, disposes of its value, and returns the cursor after it. -/
def erase (env : Environment V K W) (c : Cursor) : Op W V Cursor := do
  let (next, v) ← removeAt env .erase c
  env.disposeOp v
  return next

/-- Removes the element at `c` and hands back its value. -/
def remove (env : Environment V K W) (c : Cursor) : Op W V V := do
  return (← removeAt env .remove c).2

/-- Removes up to `n` nodes along a chain and disposes of their values, one by one. -/
def eraseAlong (env : Environment V K W) : Nat → Link → Op W V Unit
  | 0, _ | _, none => return ()
  | n + 1, some k => do
    let next ← .read fun t => t.chains.linkAt (.after k)
    (← removeNode env k).forM env.disposeOp
    eraseAlong env n next

/-- Removes the run of `q`; returns how many elements that were. -/
def eraseRun (env : Environment V K W) (q : K) : Op W V Nat := do
  match ← .fenced .eraseRun (runOf env q) with
  | none => return 0
  | some r =>
    eraseAlong env r.count (some r.first)
    return r.count

/-- Deletes the nodes of `cells`, the chain of bucket `i`, from its head. Each is detached before
its value is disposed of. -/
def clearChain (env : Environment V K W) (i : Nat) : List (Cell V) → Op W V Unit
  | [] => return ()
  | (k, n) :: cells => do
    .change fun t => ((), { t with chains := t.chains.setLink (.head i) n.next })
    (← deleteNode env k).forM env.disposeOp
    clearChain env i cells

/-- Deletes the chains of the buckets listed. -/
def clearBuckets (env : Environment V K W) : List Nat → Op W V Unit
  | [] => return ()
  | i :: is => do
    clearChain env i (← .read (·.chains.chain i))
    clearBuckets env is

/-- Removes every element. The buckets are kept. -/
def clear (env : Environment V K W) : Op W V Unit := do
  let (len, buckets) ← .read fun t => (t.size, t.bucketCount)
  .world (env.notice (.clearing len buckets))
  .fenced .clear (clearBuckets env (List.range buckets))

end SeparateChaining.Table
