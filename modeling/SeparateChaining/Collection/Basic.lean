import SeparateChaining.Environment.Policies
import SeparateChaining.Table.Insertion
import SeparateChaining.Table.Removal

/-!
# What collections share

A collection is a table with the policies settled: elements that are their own keys, or pairs of a
key and what stands under it. Of the keys it is enough to know how they are hashed and compared.
-/

namespace SeparateChaining.Collection

variable {V K T W : Type}

/-- The environment of a collection whose elements are their own keys. -/
def keyed (hash : K → UInt64) (eq : K → K → Bool) (sup : Supply W) : Environment K K W :=
  Policies.environment ⟨Extract.whole, hash, eq⟩ sup

/-- The environment of a collection of pairs. -/
def paired (hash : K → UInt64) (eq : K → K → Bool) (sup : Supply W) : Environment (K × T) K W :=
  Policies.environment ⟨Extract.first, hash, eq⟩ sup

/-- The first element whose key equals `q`. -/
def find? (env : Environment V K W) (q : K) : Op W V (Option V) := do
  let c ← Table.find env q
  if c.isEnd then return none else return some (← .query (·.get c))

/-- Removes the first element whose key equals `q` and hands it back. -/
def take? (env : Environment V K W) (q : K) : Op W V (Option V) := do
  let c ← Table.find env q
  if c.isEnd then return none else return some (← Table.remove env c)

/-- Changes the element at a cursor. -/
def modifyAt (c : Cursor) (f : V → V) : Op W V Unit :=
  .update fun t => (t.modify c f).map ((), ·)

end SeparateChaining.Collection
