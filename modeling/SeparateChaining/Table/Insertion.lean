import SeparateChaining.Table.Growth
import SeparateChaining.Table.Lookup

/-!
# Insertion

Every insertion first makes sure that one more element fits, so a table may grow even if nothing
is inserted in the end. The new node goes to the head of its home chain, or, where equal keys are
kept, directly after the first match, so that equal keys stay side by side.

The offered value is held by the operation until a node takes it: a refusal disposes of it, and
so does a panic. The fence comes down between seeking the key and linking the node. Nothing
foreign runs in between, and a panic while the key is sought finds the fence down before the
offered value goes.
-/

namespace SeparateChaining

/-- What became of a value that was offered to be inserted if it is new. -/
inductive Placement (V : Type)
  | linked (c : Cursor)
  /-- An element with an equal key is there already; the offered value is handed back. -/
  | resident (c : Cursor) (rejected : V)
  deriving DecidableEq

namespace Placement

variable {V : Type}

def cursor : Placement V → Cursor
  | linked c => c
  | resident c _ => c

def isLinked : Placement V → Bool
  | linked _ => true
  | resident .. => false

def rejected? : Placement V → Option V
  | linked _ => none
  | resident _ v => some v

end Placement

namespace Table

variable {V K W : Type}

/-- Disposes of an offered value because of a refusal. -/
def refuse {α : Type} (env : Environment V K W) (value : V) (e : AllocError) :
    Op W V (Except AllocError α) := do
  env.disposeOp value
  return .error e

/-- The memory for one more node: nothing is needed while the arena has room. -/
def reserveNode (env : Environment V K W) : Op W V Bool := do
  let (full, room) ← .read fun t => (t.chains.nodes.isFull, t.chains.nodes.grownRoom)
  if full then .world (env.reserveBytes ((room + 1) * env.slotBytes)) else return true

/-- Grants a node for `value` and the memory behind it, or disposes of `value`. -/
def grantNode (env : Environment V K W) (value : V) : Op W V (Except AllocError Unit) := do
  match ← env.holding value (.world (env.request .node 1)) with
  | .error e => refuse env value e
  | .ok () =>
    if ← env.holding value (reserveNode env) then
      return .ok ()
    else
      env.holding value (.world (env.deallocate .node 1))
      refuse env value (.outOfMemory env.nodeBytes)

/-- Panics if a place is in a node that does not live. -/
def requirePlace (p : Chains.Place) : Op W V Unit :=
  .query fun t =>
    match p with
    | .head _ => .ok ()
    | .after k => if t.chains.nodes.contains k then .ok () else .error .deletedPredecessor

/-- Puts `value` into a new node at a place. -/
def link (env : Environment V K W) (p : Chains.Place) (value : V) (hash : UInt64) :
    Op W V (Except AllocError Cursor) := do
  env.holding value (requirePlace p)
  match ← grantNode env value with
  | .error e => return .error e
  | .ok () =>
    let k ← .change fun t =>
      let (k, chains) := t.chains.insertAt p value hash
      (k, { t with chains })
    return .ok (← .read (·.cursor (some k)))

/-- Makes room for one more element and seeks the key of `value` in the name of `op`. -/
def prepare (env : Environment V K W) (op : Operation) (value : V) :
    Op W V (Except AllocError (UInt64 × Option ArenaKey)) := do
  match ← env.holding value (do rehash env ((← .read (·.size)) + 1)) with
  | .error e => refuse env value e
  | .ok () =>
    return .ok (← env.holding value (.fenced op do search env (← env.extractOp value)))

/-- The head of the bucket where a key of hash `hash` belongs. -/
def homePlace (t : Table V) (hash : UInt64) : Chains.Place := .head (t.chains.buckets.home hash)

/-- Inserts `value` unless an element with an equal key is there. -/
def insertNew (env : Environment V K W) (value : V) :
    Op W V (Except AllocError (Placement V)) := do
  match ← prepare env .insertNew value with
  | .error e => return .error e
  | .ok (_, some k) => return .ok (.resident (← .read (·.cursor (some k))) value)
  | .ok (hash, none) =>
    .fenced .insertNew do
      let place ← .read (·.homePlace hash)
      return (← link env place value hash).map .linked

/-- Inserts `value` in any case, next to an element with an equal key if there is one. -/
def insertAny (env : Environment V K W) (value : V) : Op W V (Except AllocError Cursor) := do
  match ← prepare env .insertAny value with
  | .error e => return .error e
  | .ok (hash, found) =>
    .fenced .insertAny do
      let place ← .read fun t =>
        match found with
        | some k => .after k
        | none => t.homePlace hash
      link env place value hash

def insertNew! (env : Environment V K W) (value : V) : Op W V (Placement V) :=
  (insertNew env value).infallible

def insertAny! (env : Environment V K W) (value : V) : Op W V Cursor :=
  (insertAny env value).infallible

end Table

end SeparateChaining
