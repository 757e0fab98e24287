/-!
# Requests for storage

Storage is asked for in units of a kind of block: one unit per node, one unit per slot of a
bucket array. A request that fails does so for one of three causes.
-/

namespace SeparateChaining

/-- What a unit of storage holds. -/
inductive Block
  /-- One cell of a chain. -/
  | node
  /-- One slot of a bucket array. -/
  | bucket
  deriving DecidableEq, Repr, Inhabited

def Block.name : Block → String
  | node => "Node"
  | bucket => "Bucket"

/-- Why a request for storage failed. -/
inductive AllocError
  /-- The number of elements asked for does not fit an address. -/
  | capacityOverflow
  /-- The units were granted, but the memory behind them could not be had. -/
  | outOfMemory (bytes : Nat)
  /-- A budget has fewer units left than were requested. -/
  | exhausted (requested available : Nat)
  deriving DecidableEq, Repr, Inhabited

namespace AllocError

def message : AllocError → String
  | capacityOverflow => "requested capacity overflows the address space"
  | outOfMemory bytes => s!"system allocator could not provide {bytes} bytes"
  | exhausted requested available =>
    s!"allocation budget exhausted: requested {requested} units, {available} available"

/-- The cause and its figures, written as a constructor with named fields. -/
def debugText : AllocError → String
  | capacityOverflow => "CapacityOverflow"
  | outOfMemory bytes => "OutOfMemory \x7b bytes: " ++ toString bytes ++ " \x7d"
  | exhausted requested available =>
    "Exhausted \x7b requested: " ++ toString requested ++ ", available: " ++ toString available
      ++ " \x7d"

end AllocError

/-- Bytes of the link that one bucket slot holds. -/
def linkBytes : Nat := 8

/-- The largest number of bytes one array may occupy. -/
def maxArrayBytes : Nat := 0x7fffffffffffffff

/-- The number of elements, or of units, that no count reaches. -/
def countLimit : Nat := 0x10000000000000000

end SeparateChaining
