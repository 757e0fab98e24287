import SeparateChaining.Chains.Basic
import Std.Data.HashSet.Basic

/-!
# Checking that nodes are well placed

Every live node is on one chain, once, and on that of its home bucket. The check ends on any
chains, also on those that run in a circle.
-/

namespace SeparateChaining.Chains

variable {V : Type}

/-- Whether no key occurs twice among the cells, nor among `seen`. -/
def keysDistinctFrom (seen : Std.HashSet ArenaKey) : List (Cell V) → Bool
  | [] => true
  | (k, _) :: cells => !seen.contains k && keysDistinctFrom (seen.insert k) cells

/-- Whether no key occurs twice among the cells. -/
def keysDistinct (cells : List (Cell V)) : Bool := keysDistinctFrom ∅ cells

/-- Whether the nodes on the chain of bucket `i` all have that bucket for their home. -/
def isHomeChain (c : Chains V) (i : Nat) : Bool :=
  (c.chain i).all fun cell => c.buckets.home cell.2.hash = i

/-- Whether every live node is on one chain, once, and on that of its home bucket. -/
def wellPlaced (c : Chains V) : Bool :=
  (List.range c.bucketCount).all c.isHomeChain && keysDistinct c.traversal
    && c.traversal.length == c.size

end SeparateChaining.Chains
