import SeparateChaining.Notice
import SeparateChaining.Panic

/-!
# Budgets

A budget caps the units of storage that may be live at once, whatever they hold, and counts what
is live per kind of block. Its counters are 64-bit words. A request is compared with what is
available before it is added, so the two live counters share one limit without ever passing it.
-/

namespace SeparateChaining

structure Budget where
  limit : UInt64
  liveNodes : UInt64
  liveBuckets : UInt64
  refusals : UInt64
  deriving DecidableEq, Repr, Inhabited

namespace Budget

/-- A budget of `limit` units with nothing live. -/
def ofLimit (limit : UInt64) : Budget := ⟨limit, 0, 0, 0⟩

def live (b : Budget) : Block → UInt64
  | .node => b.liveNodes
  | .bucket => b.liveBuckets

def setLive (b : Budget) : Block → UInt64 → Budget
  | .node, n => { b with liveNodes := n }
  | .bucket, n => { b with liveBuckets := n }

def inUse (b : Budget) : UInt64 := b.liveNodes + b.liveBuckets

/-- Units that may still be granted. -/
def available (b : Budget) : UInt64 := if b.inUse ≤ b.limit then b.limit - b.inUse else 0

/-- What a budget reports when it refuses a request. -/
def refusal (b : Budget) (block : Block) (count : Nat) : Notice :=
  .refused count block b.available.toNat

/-- Grants `count` units of `block` if that many are available, and otherwise counts a refusal. -/
def allocate (b : Budget) (block : Block) (count : Nat) : Except AllocError Unit × Budget :=
  if count ≤ b.available.toNat then
    (.ok (), b.setLive block (b.live block + count.toUInt64))
  else
    (.error (.exhausted count b.available.toNat), { b with refusals := b.refusals + 1 })

/-- Takes back `count` units of `block`, which must be live. -/
def deallocate (b : Budget) (block : Block) (count : Nat) : Except Panic Budget :=
  if count ≤ (b.live block).toNat then
    .ok (b.setLive block (b.live block - count.toUInt64))
  else
    .error (.overReleased count block (b.live block).toNat)

/-- The four counters, written as a record whose live and refusal counts sit in cells. -/
def debugText (b : Budget) : String :=
  let cell (n : UInt64) := "Cell \x7b value: " ++ toString n ++ " \x7d"
  "Budget \x7b limit: " ++ toString b.limit ++ ", live_nodes: " ++ cell b.liveNodes
    ++ ", live_buckets: " ++ cell b.liveBuckets ++ ", refusals: " ++ cell b.refusals ++ " \x7d"

end Budget

end SeparateChaining
