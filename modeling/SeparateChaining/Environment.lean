import SeparateChaining.Notice
import SeparateChaining.Table.Basic

/-!
# What a table calls

A table works in an environment that it does not control. `Caller` is foreign code: it takes the
key out of a value, hashes and compares keys, copies and disposes of values. `Supply` grants and
takes back storage, and receives notices. All of it acts on a state of its own, the world, of any
type `W`, and may answer differently each time.

Foreign code may panic. It sees the table as it stands at the moment of the call, fence included,
so it may run the table's own operations on what it sees; it cannot change the table. While a
panic unwinds, a value is disposed of by `disposeUnwinding`, which has no second panic to raise.
-/

namespace SeparateChaining

/-- The code that a table is given to work with. Each part sees the table as it stands. -/
structure Caller (V K W : Type) where
  extract : Table V → V → EStateM Panic W K
  hash : Table V → K → EStateM Panic W UInt64
  /-- Compares a stored key, the first, with a key that is sought. -/
  keyEq : Table V → K → K → EStateM Panic W Bool
  copy : Table V → V → EStateM Panic W V
  dispose : Table V → V → EStateM Panic W Unit
  disposeUnwinding : Table V → V → W → W

/-- Where a table's storage comes from and where its notices go. -/
structure Supply (W : Type) where
  /-- Grants units of storage, or refuses them. -/
  allocate : Block → Nat → W → Except AllocError Unit × W
  deallocate : Block → Nat → EStateM Panic W Unit
  /-- Whether the memory behind granted units, so many bytes at once, can be had. -/
  reserve : Nat → W → Bool × W
  report : Notice → W → W
  /-- Bytes that a node takes. -/
  nodeBytes : Nat
  /-- Bytes that the arena takes to hold a node. -/
  slotBytes : Nat

structure Environment (V K W : Type) extends Caller V K W, Supply W

/-! ## Storage -/

namespace Supply

variable {W : Type}

def request (sup : Supply W) (block : Block) (count : Nat) :
    EStateM Panic W (Except AllocError Unit) := fun w =>
  let (r, w) := sup.allocate block count w
  .ok r w

def reserveBytes (sup : Supply W) (bytes : Nat) : EStateM Panic W Bool := fun w =>
  let (r, w) := sup.reserve bytes w
  .ok r w

def notice (sup : Supply W) (n : Notice) : EStateM Panic W Unit := fun w => .ok () (sup.report n w)

/-- The bucket count for so many elements. Asking for more than the ladder has is noticed. -/
def fitBuckets (sup : Supply W) (n : Nat) : EStateM Panic W Nat := do
  (Ladder.notice? n).forM sup.notice
  return Ladder.fit n

/-- Grants the slots of a bucket array and the memory behind them, or neither. -/
def allocateBuckets (sup : Supply W) (n : Nat) : EStateM Panic W (Except AllocError Buckets) := do
  let bytes := n * linkBytes
  if maxArrayBytes < bytes then
    return .error .capacityOverflow
  else
    match ← sup.request .bucket n with
    | .error e => return .error e
    | .ok () =>
      if ← sup.reserveBytes bytes then
        return .ok (.replicate n)
      else
        sup.deallocate .bucket n
        return .error (.outOfMemory bytes)

/-- Takes back a bucket array, which must not head a chain any more. -/
def releaseBuckets (sup : Supply W) (b : Buckets) : EStateM Panic W Unit :=
  if !b.isClear then throw .releasedWhileLinked
  else if b.size = 0 then return ()
  else sup.deallocate .bucket b.size

end Supply

end SeparateChaining
