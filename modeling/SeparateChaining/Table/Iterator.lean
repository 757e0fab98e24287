import SeparateChaining.Table.Basic

/-!
# Iterators

An iterator walks a table in traversal order from one link up to another, and knows how many
elements are still to come. It holds the chains it walks, so it is a value: a copy of it yields
the same elements.
-/

namespace SeparateChaining

structure Iterator (V : Type) where
  chains : Chains V
  current : Link
  stop : Link
  /-- How many elements are announced. -/
  remaining : Nat

namespace Iterator

variable {V : Type}

/-- The next element and the iterator after it, unless the stop is reached. -/
def next? (it : Iterator V) : Option (V × Iterator V) :=
  if it.current = it.stop then none
  else
    match it.current with
    | none => none
    | some k =>
      match it.chains.nodes.get? k with
      | none => none
      | some n =>
        some (n.value,
          { it with current := it.chains.successor k, remaining := it.remaining - 1 })

/-- The next element, and the iterator after the attempt to advance it. -/
def next (it : Iterator V) : Option V × Iterator V :=
  match it.next? with
  | some (v, it) => (some v, it)
  | none => (none, it)

/-- At most `n` elements, and the iterator after them. -/
def take (it : Iterator V) : Nat → List V × Iterator V
  | 0 => ([], it)
  | n + 1 =>
    match it.next? with
    | none => ([], it)
    | some (v, it) =>
      let (vs, it) := it.take n
      (v :: vs, it)

/-- The elements still to come. There are no more of them than slots for nodes. -/
def toList (it : Iterator V) : List V := (it.take (it.chains.nodes.slots.size + 1)).1

end Iterator

/-- Over all elements of a table. -/
def Table.iterator (t : Table V) : Iterator V := ⟨t.chains, t.chains.first, none, t.size⟩

end SeparateChaining
