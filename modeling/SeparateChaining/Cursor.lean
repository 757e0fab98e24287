import SeparateChaining.Chains.Buckets
import SeparateChaining.Panic

/-!
# Cursors

A cursor names one element of one table, or the end of that table. It is a plain value: the table
may change while a cursor is kept. It carries the identity of the table that issued it and the
number of times that table had grown by then, so every later use can be checked.
-/

namespace SeparateChaining

structure Cursor where
  node : Link
  table : Nat
  growths : Nat
  deriving DecidableEq, Repr

namespace Cursor

def isEnd (c : Cursor) : Bool := c.node.isNone

/-- Whether two cursors of one table name the same element, or are both the end. -/
def same (a b : Cursor) : Except Panic Bool :=
  if a.table = b.table then .ok (a.node == b.node) else .error .unrelatedCursors

end Cursor

end SeparateChaining
