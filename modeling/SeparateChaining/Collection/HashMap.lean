import SeparateChaining.Collection.Basic

/-!
# Hash maps

A map is a table of pairs, a key and what it is mapped to, in which no two keys are equal. When a
key that is there already is inserted, the stored key stays and only what it is mapped to changes.
-/

namespace SeparateChaining.HashMap

variable {K T W : Type}

/-- A pair with another second half. -/
def setSecond (t : T) (p : K × T) : K × T := (p.1, t)

variable (env : Environment (K × T) K W)

/-- Maps `k` to `t`; returns what it was mapped to before. -/
def insert (k : K) (t : T) : Op W (K × T) (Option T) := do
  match ← Table.insertNew! env (k, t) with
  | .linked _ => return none
  | .resident c (_, t) =>
    let old ← .query (·.get c)
    Collection.modifyAt c (setSecond t)
    return some old.2

/-- Maps keys in order. -/
def insertMany (ps : List (K × T)) : Op W (K × T) Unit :=
  ps.forM fun p => discard (insert env p.1 p.2)

/-- Maps `k` to `t` if it is mapped to nothing yet; says whether it was not. -/
def insertIfNew (k : K) (t : T) : Op W (K × T) Bool := do
  return (← Table.insertNew! env (k, t)).isLinked

def get? (q : K) : Op W (K × T) (Option T) := do
  return (← Collection.find? env q).map (·.2)

/-- Changes what `q` is mapped to, if anything; returns the new value. -/
def modify (q : K) (f : T → T) : Op W (K × T) (Option T) := do
  let c ← Table.find env q
  if c.isEnd then
    return none
  else
    Collection.modifyAt c fun p => setSecond (f p.2) p
    return some (← .query (·.get c)).2

def contains (q : K) : Op W (K × T) Bool := Table.contains env q

/-- Removes the pair whose key equals `q` and hands it back. -/
def takeEntry? (q : K) : Op W (K × T) (Option (K × T)) := Collection.take? env q

/-- Removes `q`; returns what it was mapped to. -/
def take? (q : K) : Op W (K × T) (Option T) := do
  return (← takeEntry? env q).map (·.2)

end SeparateChaining.HashMap
