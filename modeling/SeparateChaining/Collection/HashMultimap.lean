import SeparateChaining.Collection.Basic

/-!
# Hash multimaps

A multimap is a table of pairs, a key and one of the values under it, which keeps every pair that
is inserted. The pairs of one key are adjacent in iteration.
-/

namespace SeparateChaining.HashMultimap

variable {K T W : Type} (env : Environment (K × T) K W)

def insert (k : K) (t : T) : Op W (K × T) Unit := discard (Table.insertAny! env (k, t))

/-- Adds pairs in order. -/
def insertMany (ps : List (K × T)) : Op W (K × T) Unit := ps.forM fun p => insert env p.1 p.2

def contains (q : K) : Op W (K × T) Bool := Table.contains env q

/-- The number of values under `q`. -/
def count (q : K) : Op W (K × T) Nat := Table.count env q

/-- The values under `q`. -/
def getAll (q : K) : Op W (K × T) (List T) := do
  return (← Table.iteratorOf env q).toList.map (·.2)

/-- Removes all values under `q`; says how many those were. -/
def eraseAll (q : K) : Op W (K × T) Nat := Table.eraseRun env q

end SeparateChaining.HashMultimap
