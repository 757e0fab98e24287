import SeparateChaining.Collection.Basic

/-!
# Hash sets

A set is a table whose elements are their own keys and in which no two are equal. An element that
is there already stays: inserting an equal one changes nothing.
-/

namespace SeparateChaining.HashSet

variable {K W : Type} (env : Environment K K W)

/-- Adds an element; says whether it is new. -/
def insert (k : K) : Op W K Bool := do
  return (← Table.insertNew! env k).isLinked

/-- Adds elements in order. -/
def insertMany (ks : List K) : Op W K Unit := ks.forM fun k => discard (insert env k)

def contains (q : K) : Op W K Bool := Table.contains env q

/-- The element equal to `q`. -/
def get? (q : K) : Op W K (Option K) := Collection.find? env q

/-- Removes the element equal to `q`; says whether there was one. -/
def erase (q : K) : Op W K Bool := do
  return 0 < (← Table.eraseRun env q)

/-- Removes the element equal to `q` and hands it back. -/
def take? (q : K) : Op W K (Option K) := Collection.take? env q

end SeparateChaining.HashSet
