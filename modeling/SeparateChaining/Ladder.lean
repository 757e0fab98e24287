import SeparateChaining.Bisection

/-!
# The ladder of bucket counts

A table's bucket count is always a rung of one fixed ascending ladder of primes, each about
twice the one before. A prime count spreads hashes by their remainder even when the low bits of
the hashes are poor.

`fit n` is the least rung that reaches `n`, or the top rung when none does. `isRung n` decides
membership. The two search the ladder independently: `fit` halves an interval around the first
rung that is not below `n`, `isRung` halves one around a rung equal to `n`.
-/

namespace SeparateChaining

namespace Ladder

/-- The bucket counts a table may have. -/
def rungs : Array Nat := #[
  53, 97, 193, 389, 769, 1543, 3079, 6151, 12289, 24593, 49157, 98317, 196613, 393241, 786433,
  1572869, 3145739, 6291469, 12582917, 25165843, 50331653, 100663319, 201326611, 402653189,
  805306457, 1610612741, 3221225473, 4294967291, 8589934583, 17179869143, 34359738337,
  68719476731, 137438953447, 274877906899, 549755813881, 1099511627689]

def rung (i : Nat) : Nat := rungs.getD i 0

/-- The largest bucket count a table ever has. -/
def top : Nat := rung (rungs.size - 1)

/-- The least rung that is at least `n`, or `top` when `n` lies above the ladder. -/
def fit (n : Nat) : Nat :=
  match rungs[partitionIndex (fun i => rung i < n) 0 rungs.size]? with
  | some p => p
  | none => top

def isRung (n : Nat) : Bool :=
  (matchIndex? (fun i => compare (rung i) n) 0 rungs.size).isSome

end Ladder

end SeparateChaining
