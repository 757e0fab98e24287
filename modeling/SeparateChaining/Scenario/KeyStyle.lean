import SeparateChaining.Scenario.Key

/-!
# Keys of collections

Collections hash and compare keys as their type has it, or take texts for one that differ only in
the case of ASCII letters. Where the order of a traversal is random, replies are put in ascending
order.
-/

namespace SeparateChaining.Scenario

/-- How a collection treats its keys. -/
structure KeyStyle where
  type : KeyType
  /-- Whether texts that differ in the case of ASCII letters are one key. -/
  ignoringCase : Bool

namespace KeyStyle

/-- The representative of the keys equal to `k`. -/
def fold (st : KeyStyle) : Key → Key
  | .text s => .text (if st.ignoringCase then s.map Char.toLower else s)
  | k => k

def hash (st : KeyStyle) (h : Hashing) (k : Key) : UInt64 := h.hash (st.type.feed (st.fold k))

def equal (st : KeyStyle) (a b : Key) : Bool :=
  (if st.ignoringCase then Equality.ignoringCase else .standard).holds a b

end KeyStyle

/-- Whether a key does not come after another: integers by value, texts and bytes as in a
dictionary. -/
def Key.le (a b : Key) : Bool := Equality.atMost.holds a b

def Item.le (a b : Item) : Bool :=
  if a.key = b.key then a.payload.getD 0 ≤ b.payload.getD 0 else a.key.le b.key

/-- How a collection's replies are ordered. -/
structure ReplyOrder where
  /-- Whether to sort, because the traversal order is random. -/
  sorted : Bool

namespace ReplyOrder

def items (o : ReplyOrder) (vs : List Item) : List Item :=
  if o.sorted then vs.mergeSort Item.le else vs

def integers (o : ReplyOrder) (ns : List Int64) : List Int64 :=
  if o.sorted then ns.mergeSort (fun a b => a ≤ b) else ns

end ReplyOrder

end SeparateChaining.Scenario
