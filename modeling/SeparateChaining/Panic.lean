import SeparateChaining.Storage

/-!
# Panics

A panic abandons the operation in progress and leaves the state as it stands. `Panic` lists the
causes a table knows, and `Panic.caller` is a panic raised by code that a table calls. The last
causes before it are breaches of a table's own structure, which no reachable table shows.
-/

namespace SeparateChaining

/-- The operations that hold a table's fence while they run. -/
inductive Operation
  | find
  | count
  | range
  | iteratorOf
  | homeBucket
  | check
  | insertNew
  | insertAny
  | eraseRun
  | erase
  | remove
  | clear
  | rehash
  deriving DecidableEq, Repr

/-- The name that a panic gives to an operation. -/
def Operation.name : Operation → String
  | find => "find"
  | count => "count"
  | range => "equal_range"
  | iteratorOf => "equal_values"
  | homeBucket => "bucket_of"
  | check => "invariants"
  | insertNew => "insert_unique"
  | insertAny => "insert_equal"
  | eraseRun => "erase_key"
  | erase => "erase"
  | remove => "remove"
  | clear => "clear"
  | rehash => "rehash"

inductive Panic
  /-- A cursor was used on a table that did not issue it. -/
  | foreignCursor
  /-- A cursor was used after its table grew. -/
  | staleCursor
  /-- A cursor was used after its element was removed. -/
  | erasedElement
  | endCursor
  /-- Cursors of two tables were compared. -/
  | unrelatedCursors
  | reentrant (attempted running : Operation)
  /-- An operation that does not report refusals met one. -/
  | allocationFailed (cause : AllocError)
  /-- More units were returned than are live. -/
  | overReleased (count : Nat) (block : Block) (live : Nat)
  | bucketOutOfRange (buckets index : Nat)
  /-- A key was sought in a table without buckets, which is what a table is while it is released:
  the remainder that numbers the key's bucket has no divisor. -/
  | noBuckets
  /-- A live node is not on the chain of its home bucket. -/
  | unlinkedNode
  /-- A chain leads to a deleted node. -/
  | brokenChain
  /-- A node was to be linked after a deleted one. -/
  | deletedPredecessor
  /-- A bucket array was released while a slot still headed a chain. -/
  | releasedWhileLinked
  | caller (message : String)
  deriving DecidableEq, Repr, Inhabited

def Panic.message : Panic → String
  | foreignCursor => "cursor belongs to a different table"
  | staleCursor => "cursor was invalidated by a rehash of the table"
  | erasedElement => "cursor refers to an erased element"
  | endCursor => "the end cursor does not refer to an element"
  | unrelatedCursors => "compared cursors that belong to different tables"
  | reentrant attempted running =>
    "reentrant `" ++ attempted.name ++ "` while `" ++ running.name
      ++ "` is in progress on the same table"
  | allocationFailed cause => s!"hash table allocation failed: {cause.message}"
  | overReleased count block live =>
    s!"deallocating {count} {block.name} units but only {live} are live"
  | bucketOutOfRange buckets index =>
    s!"index out of bounds: the len is {buckets} but the index is {index}"
  | noBuckets => "attempt to calculate the remainder with a divisor of zero"
  | unlinkedNode => "live node missing from its bucket chain"
  | brokenChain => "bucket chain links a deleted node"
  | deletedPredecessor => "a node is linked after a deleted node"
  | releasedWhileLinked => "a bucket array is released while it heads a chain"
  | caller message => message

end SeparateChaining
