import SeparateChaining.Scenario.Key
import SeparateChaining.Table.Check

/-!
# Calling back into a table

Foreign code may call back into a table while one of its operations runs. A probe is what it asks
then. A trigger is a probe that waits for a certain call.
-/

namespace SeparateChaining.Scenario

/-- What a call back asks of a table. -/
inductive Probe
  | find (k : Key)
  | range (k : Key)
  | first
  | contains (k : Key)
  | count (k : Key)
  | iteratorOf (k : Key)
  | homeBucket (k : Key)
  | check
  | size
  | occupied
  | values
  /-- Something that a table does not answer. -/
  | unknown
  deriving DecidableEq

inductive ProbeAnswer
  | flag (b : Bool)
  | number (n : Nat)
  | items (vs : List Item)
  /-- That the table does not answer this. -/
  | unknown
  deriving DecidableEq

/-- The kinds of call that can call back. -/
inductive CallKind
  | hash
  | eq
  | extract
  | drop
  deriving DecidableEq, Repr

/-- A call back that is to happen once. -/
structure Trigger where
  /-- The kind of call it waits for, or none. -/
  kind : Option CallKind
  /-- Calls of that kind that pass first. -/
  skip : Nat
  probe : Probe
  /-- The table that is asked, if it is not the one at work. -/
  bystander : Option (Table Item)
  /-- Whether a panic of the call back ends there. -/
  catches : Bool

/-- Asks the table at work. -/
def Probe.ask {W : Type} (env : Environment Item Key W) : Probe → Op W Item ProbeAnswer
  | find k => do return .flag (← Table.find env k).isEnd
  | range k => do return .flag (← Table.range env k).1.isEnd
  | first => do return .flag (← .read (·.firstCursor.isEnd))
  | contains k => do return .flag (← Table.contains env k)
  | count k => do return .number (← Table.count env k)
  | iteratorOf k => do return .number (← Table.iteratorOf env k).remaining
  | homeBucket k => do return .number (← Table.homeBucket env k)
  | check => do return .flag (← Table.check env)
  | size => do return .number (← .read (·.size))
  | occupied => do return .number (← .read (·.occupied))
  | values => do return .items (← .read (·.iterator.toList))
  | unknown => return .unknown

end SeparateChaining.Scenario
