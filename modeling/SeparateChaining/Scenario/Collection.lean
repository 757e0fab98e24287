import SeparateChaining.Collection.HashSet
import SeparateChaining.Collection.HashBag
import SeparateChaining.Collection.HashMap
import SeparateChaining.Collection.HashMultimap
import SeparateChaining.Scenario.KeyStyle
import SeparateChaining.Scenario.Reply
import SeparateChaining.Scenario.World

/-!
# Collections at work

What a scenario does with a set, a bag, a map, a multimap, or a bare table with the usual
policies. A collection may hash at random: replies that would show the order of a traversal are
then ascending, and nothing else in a reply depends on the hashes.
-/

namespace SeparateChaining.Scenario

inductive CollectionAction
  | clear
  | iterate
  | debug (pretty : Bool)
  | extend (vs : List (Key × Int64))
  | fork
  | swap
  | check
  | occupied
  | occupancy
  | homeBucket (k : Key)
  | find (k : Key)
  | range (k : Key)
  | walk
  | insert (k : Key) (n : Int64)
  | insertIfNew (k : Key) (n : Int64)
  | insertNew (k : Key)
  | insertAny (k : Key)
  | contains (k : Key)
  | containsKey (k : Key)
  | get (k : Key)
  | modify (k : Key) (add : Int64)
  | count (k : Key)
  | iteratorOf (k : Key)
  | getAll (k : Key)
  | erase (k : Key)
  | remove (k : Key)
  | take (k : Key)
  | removeEntry (k : Key)
  | removeOne (k : Key)
  | removeAll (k : Key)
  | eraseRun (k : Key)
  | keys
  | payloads
  | values
  | rehash (n : Nat)
  | reserve (n : Nat)
  | loadFactor
  | unknown

/-- A collection at work on elements of one type: how its elements show, how it prints, and the
actions of its own. -/
structure Collection (V : Type) where
  env : Environment V Key Unit
  item : V → Item
  layout : List V → Text.Layout
  ordering : ReplyOrder
  /-- Whether it lacks an action that other collections share. -/
  lacks : CollectionAction → Bool := fun _ => false
  act : CollectionAction → Op Unit V (Option Reply)

namespace Collection

variable {V : Type} (c : Collection V)

/-- The actions that collections share, and then its own. There is no reply to an action that it
does not have. -/
def perform (a : CollectionAction) : Op Unit V (Option Reply) :=
  if c.lacks a then return none
  else
    match a with
    | .clear => do
      Table.clear c.env
      return some .nothing
    | .iterate => .read fun t => some (.items (c.ordering.items (t.iterator.toList.map c.item)))
    | .debug pretty => .read fun t =>
      let layout := c.layout t.iterator.toList
      some (.text (if pretty then layout.pretty else layout.inline))
    | .check => return some (.flag (← Table.check c.env))
    | .occupied => .read fun t => some (.number t.occupied)
    | .occupancy => .read fun t => some (.occupancy t.occupancy)
    | .homeBucket k => return some (.number (← Table.homeBucket c.env k))
    | .find k => do
      let found ← Table.find c.env k
      .read fun t => some (.element ((t.get found).toOption.map c.item))
    | .range k => do
      let (a, b) ← Table.range c.env k
      return some (.items ((← .query (·.walk a b)).map c.item))
    | .walk => do
      let vs ← .query fun t => t.walk t.firstCursor t.endCursor
      return some (.items (c.ordering.items (vs.map c.item)))
    | a => c.act a

end Collection

/-- The memory that collections live in. -/
def collectionSupply : Supply Unit := .unlimited memoryCeiling 48 64

def keyItem (k : Key) : Item := ⟨k, none⟩

def pairItem (p : Key × Int64) : Item := ⟨p.1, some p.2⟩

def pairLayout (p : Key × Int64) : Text.Layout := .tuple [p.1.layout, .atom (toString p.2)]

def entryLayout (p : Key × Int64) : Text.Layout := .entry p.1.layout (.atom (toString p.2))

section

variable (st : KeyStyle) (h : Hashing) (o : ReplyOrder)

def setCollection : Collection Key :=
  let env := Collection.keyed (st.hash h) st.equal collectionSupply
  { env, item := keyItem, layout := fun ks => .set (ks.map Key.layout), ordering := o
    act := fun
      | .extend vs => do
        HashSet.insertMany env (vs.map (·.1))
        return some .nothing
      | .insert k _ => return some (.flag (← HashSet.insert env k))
      | .contains k => return some (.flag (← HashSet.contains env k))
      | .get k => return some (.element ((← HashSet.get? env k).map keyItem))
      | .remove k => return some (.flag (← HashSet.erase env k))
      | .take k => return some (.element ((← HashSet.take? env k).map keyItem))
      | .values => .read fun t => some (.items (o.items (t.iterator.toList.map keyItem)))
      | _ => return none }

def bagCollection : Collection Key :=
  let env := Collection.keyed (st.hash h) st.equal collectionSupply
  { env, item := keyItem, layout := fun ks => .set (ks.map Key.layout), ordering := o
    act := fun
      | .extend vs => do
        HashBag.insertMany env (vs.map (·.1))
        return some .nothing
      | .insert k _ => do
        HashBag.insert env k
        return some .nothing
      | .contains k => return some (.flag (← HashBag.contains env k))
      | .count k => return some (.number (← HashBag.count env k))
      | .removeOne k => return some (.flag (← HashBag.eraseOne env k))
      | .removeAll k => return some (.number (← HashBag.eraseAll env k))
      | _ => return none }

def mapCollection : Collection (Key × Int64) :=
  let env := Collection.paired (st.hash h) st.equal collectionSupply
  { env, item := pairItem, layout := fun ps => .set (ps.map entryLayout), ordering := o
    act := fun
      | .extend vs => do
        HashMap.insertMany env vs
        return some .nothing
      | .insert k n => return some (.integer (← HashMap.insert env k n))
      | .insertIfNew k n => return some (.flag (← HashMap.insertIfNew env k n))
      | .get k => return some (.integer (← HashMap.get? env k))
      | .modify k add => return some (.integer (← HashMap.modify env k (· + add)))
      | .containsKey k => return some (.flag (← HashMap.contains env k))
      | .remove k => return some (.integer (← HashMap.take? env k))
      | .removeEntry k => return some (.element ((← HashMap.takeEntry? env k).map pairItem))
      | .keys => .read fun t =>
        some (.items (o.items (t.iterator.toList.map fun p => keyItem p.1)))
      | .payloads => .read fun t => some (.integers (o.integers (t.iterator.toList.map (·.2))))
      | _ => return none }

def multimapCollection : Collection (Key × Int64) :=
  let env := Collection.paired (st.hash h) st.equal collectionSupply
  { env, item := pairItem, layout := fun ps => .list (ps.map pairLayout), ordering := o
    act := fun
      | .extend vs => do
        HashMultimap.insertMany env vs
        return some .nothing
      | .insert k n => do
        HashMultimap.insert env k n
        return some .nothing
      | .containsKey k => return some (.flag (← HashMultimap.contains env k))
      | .count k => return some (.number (← HashMultimap.count env k))
      | .getAll k => return some (.integers (← HashMultimap.getAll env k))
      | .removeAll k => return some (.number (← HashMultimap.eraseAll env k))
      | _ => return none }

/-- A bare table whose values are their own keys. It does not tell how its elements lie in buckets,
and prints in one line only. -/
def tableCollection : Collection Key :=
  let env := Collection.keyed (st.hash h) st.equal collectionSupply
  { env, item := keyItem, layout := fun ks => .set (ks.map Key.layout), ordering := o
    lacks := fun
      | .debug true | .occupied | .occupancy | .homeBucket _ => true
      | _ => false
    act := fun
      | .insertNew k => do
        match ← Table.insertNew! env k with
        | .linked c => return some (.stored (keyItem (← .query (·.get c))))
        | .resident c k =>
          return some (.resident (keyItem (← .query (·.get c))) (keyItem k))
      | .insertAny k => do
        let c ← Table.insertAny! env k
        return some (.element (some (keyItem (← .query (·.get c)))))
      | .contains k => return some (.flag (← Table.contains env k))
      | .count k => return some (.number (← Table.count env k))
      | .iteratorOf k => do
        let it ← Table.iteratorOf env k
        return some (.announced it.remaining (it.toList.map keyItem))
      | .erase k => do
        discard (Table.erase env (← Table.find env k))
        return some .nothing
      | .remove k => do
        let v ← Table.remove env (← Table.find env k)
        return some (.element (some (keyItem v)))
      | .eraseRun k => return some (.number (← Table.eraseRun env k))
      | .rehash n => do
        Table.rehash! env n
        return some .nothing
      | .reserve n => do
        Table.reserve! env n
        return some .nothing
      | .loadFactor => .read fun t => some (.number t.loadFactor.toBits.toNat)
      | _ => return none }

end

end SeparateChaining.Scenario
