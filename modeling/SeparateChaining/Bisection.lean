/-!
# Bisection

Two ways of searching an ascending sequence by halving an interval of its indices: for the end of
an initial segment, and for an entry that equals what is sought.
-/

namespace SeparateChaining

/-- The least index in `[lo, hi]` from which on `below` fails, where `below` holds on an initial
segment of the indices. -/
def partitionIndex (below : Nat → Bool) (lo hi : Nat) : Nat :=
  if lo < hi then
    let mid := lo + (hi - lo) / 2
    if below mid then partitionIndex below (mid + 1) hi else partitionIndex below lo mid
  else lo
termination_by hi - lo
decreasing_by all_goals omega

/-- An index in `[lo, hi)` at which `order` is `eq`, where `order` compares the entry at an index
with what is sought and the entries ascend. -/
def matchIndex? (order : Nat → Ordering) (lo hi : Nat) : Option Nat :=
  if lo < hi then
    let mid := lo + (hi - lo) / 2
    match order mid with
    | .eq => some mid
    | .lt => matchIndex? order (mid + 1) hi
    | .gt => matchIndex? order lo mid
  else none
termination_by hi - lo
decreasing_by all_goals omega

end SeparateChaining
