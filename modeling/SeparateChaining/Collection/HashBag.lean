import SeparateChaining.Collection.Basic

/-!
# Hash bags

A bag is a table whose elements are their own keys and which keeps every one that is inserted.
Equal elements are adjacent in iteration.
-/

namespace SeparateChaining.HashBag

variable {K W : Type} (env : Environment K K W)

def insert (k : K) : Op W K Unit := discard (Table.insertAny! env k)

/-- Adds elements in order. -/
def insertMany (ks : List K) : Op W K Unit := ks.forM (insert env)

def contains (q : K) : Op W K Bool := Table.contains env q

/-- The number of elements equal to `q`. -/
def count (q : K) : Op W K Nat := Table.count env q

/-- Removes one element equal to `q`; says whether there was one. -/
def eraseOne (q : K) : Op W K Bool := do
  let c ← Table.find env q
  if c.isEnd then
    return false
  else
    discard (Table.erase env c)
    return true

/-- Removes all elements equal to `q`; says how many those were. -/
def eraseAll (q : K) : Op W K Nat := Table.eraseRun env q

end SeparateChaining.HashBag
