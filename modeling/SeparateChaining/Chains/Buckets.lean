import SeparateChaining.Arena

/-!
# Bucket arrays

A bucket array holds one link per bucket: the head of the bucket's chain, or nothing. A hash's
home is the bucket numbered by its remainder modulo the number of buckets.
-/

namespace SeparateChaining

/-- A link to a node of an arena, or the end of a chain. -/
abbrev Link := Option ArenaKey

structure Buckets where
  heads : Array Link
  deriving Inhabited

namespace Buckets

/-- `n` buckets, all empty. -/
def replicate (n : Nat) : Buckets := ⟨Array.replicate n none⟩

def size (b : Buckets) : Nat := b.heads.size

/-- The bucket that a hash belongs to. -/
def home (b : Buckets) (hash : UInt64) : Nat := hash.toNat % b.size

def head (b : Buckets) (i : Nat) : Link := b.heads.getD i none

def setHead (b : Buckets) (i : Nat) (l : Link) : Buckets := ⟨b.heads.setIfInBounds i l⟩

/-- Detaches the chain of a bucket, which is left empty. -/
def detach (b : Buckets) (i : Nat) : Link × Buckets := (b.head i, b.setHead i none)

/-- The head of the first bucket that is not empty, from bucket `i` on. -/
def firstFrom (b : Buckets) (i : Nat) : Link :=
  if h : i < b.heads.size then
    match b.heads[i] with
    | some k => some k
    | none => b.firstFrom (i + 1)
  else none
termination_by b.heads.size - i

/-- The number of buckets that are not empty. -/
def occupied (b : Buckets) : Nat := b.heads.countP (·.isSome)

/-- As many buckets, all empty. -/
def emptied (b : Buckets) : Buckets := replicate b.size

/-- Whether every bucket is empty. -/
def isClear (b : Buckets) : Bool := b.heads.all (·.isNone)

@[simp] theorem size_replicate (n : Nat) : (replicate n).size = n := by
  simp [replicate, size]

@[simp] theorem size_setHead (b : Buckets) (i : Nat) (l : Link) :
    (b.setHead i l).size = b.size := by
  simp [setHead, size]

theorem home_lt (b : Buckets) (hash : UInt64) (h : 0 < b.size) : b.home hash < b.size :=
  Nat.mod_lt _ h

end Buckets

end SeparateChaining
