import SeparateChaining.Scenario.World

/-!
# Steps

What a scenario does, one step at a time. Cursors are kept under names from one step to the next; a
kept cursor can be used on any table.
-/

namespace SeparateChaining.Scenario

/-- What is done with one table, or with the scenario itself. -/
inductive Action
  | create (capacity : Nat)
  | clone
  | drop
  | first
  | past
  | find (k : Key)
  /-- Moves to the next element. -/
  | next (c : String)
  | erase (c : String)
  | insertNew (v : Item)
  | insertAny (v : Item)
  /-- Likewise; a refusal is reported, and memory is perhaps not to be had. -/
  | tryInsertNew (v : Item) (starved : Bool)
  | tryInsertAny (v : Item) (starved : Bool)
  | range (k : Key)
  | get (c : String)
  /-- Adds to the number beside a key, and puts another key in its place if one is given. -/
  | modify (c : String) (add : Int64) (key : Option Key)
  | remove (c : String)
  | compare (a b : String)
  | isEnd (c : String)
  | contains (k : Key)
  | count (k : Key)
  | eraseRun (k : Key)
  | homeBucket (k : Key)
  | bucketSize (n : Nat)
  | check
  | hashOf (k : Key)
  /-- The size of each bucket that is not empty. -/
  | occupancy
  | statistics
  | iterate (limit : Option Nat)
  | iterateRun (k : Key) (limit : Option Nat)
  | values
  | walk
  | debug (pretty : Bool)
  | clear
  | rehash (n : Nat)
  | reserve (n : Nat)
  | tryRehash (n : Nat) (starved : Bool)
  | tryReserve (n : Nat) (starved : Bool)
  /-- Inserts the keys that stand for `start`, `start + stride`, and so on. -/
  | fill (n : Nat) (start stride : UInt64) (equal : Bool)
  /-- Erases the elements numbered 0, `n`, `2n` and so on in one walk. -/
  | eraseEvery (n : Nat)
  | poison (p : Poison)
  | unknown
  deriving Inhabited

inductive Step
  /-- Does an action with the table of a number, and keeps the cursors it returns under names. -/
  | act (table : Nat) (action : Action) (keep keep2 : Option String)
  /-- Takes a step during which foreign code calls back into the table of a number, if it is called
  in the kind given. -/
  | reenter (table : Nat) (kind : Option CallKind) (skip : Nat) (probe : Probe) (catches : Bool)
    (step : Step)
  deriving Inhabited

/-- The number of the table that a step is about. -/
def Step.table : Step → Nat
  | act table .. => table
  | reenter table .. => table

end SeparateChaining.Scenario
