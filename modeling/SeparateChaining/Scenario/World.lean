import SeparateChaining.Scenario.Probe
import SeparateChaining.Scenario.Record
import SeparateChaining.Storage.Budget

/-!
# The world of a scenario

Storage comes from a budget or without limit, and memory is had for requests up to a ceiling, or
not at all. The world also holds the record, which takes events of the kinds asked for, the keys
that foreign code refuses, and the call back that is to happen, with what calls back were told.
-/

namespace SeparateChaining.Scenario

/-- The keys that are refused, per kind of call. -/
structure Poison where
  hash : Option Key
  eq : Option Key
  copy : Option Key
  drop : Option Key
  deriving Inhabited

structure World where
  budget : Option Budget
  /-- Whether no memory can be had. -/
  starved : Bool
  poison : Poison
  trigger : Option Trigger
  /-- What calls back were told. -/
  answers : List (Except Panic ProbeAnswer)
  /-- The kinds of event that are recorded. -/
  recorded : List EventKind
  record : Array Event
  /-- Whether disposals are kept out of the record. -/
  silent : Bool

namespace World

def ofBudget (budget : Option Budget) (recorded : List EventKind) : World where
  budget
  starved := false
  poison := default
  trigger := none
  answers := []
  recorded
  record := #[]
  silent := false

/-- Records an event, if events of its kind are recorded. -/
@[inline] def push (w : World) (e : Event) : World :=
  if w.recorded.contains e.kind then { w with record := w.record.push e } else w

/-- Records that a key was disposed of. -/
def noteDisposal (w : World) (k : Key) : World := if w.silent then w else w.push (.disposed k)

end World

/-- The most bytes that are had in one request. -/
def memoryCeiling : Nat := 16777216

/-- Bytes of a node, and of an arena slot with a node in it. -/
structure NodeLayout where
  nodeBytes : Nat
  slotBytes : Nat

def supply (layout : NodeLayout) : Supply World where
  allocate block count w :=
    match w.budget with
    | none => (.ok (), w.push (.granted block count))
    | some b =>
      match b.allocate block count with
      | (.ok (), b') => (.ok (), { w with budget := some b' }.push (.granted block count))
      | (.error e, b') =>
        (.error e, ({ w with budget := some b' }.push (.noticed (b.refusal block count))).push
          (.refused block count))
  deallocate block count := fun w =>
    let w := w.push (.freed block count)
    match w.budget with
    | none => .ok () w
    | some b =>
      match b.deallocate block count with
      | .ok b => .ok () { w with budget := some b }
      | .error p => .error p w
  reserve bytes w := (!w.starved && bytes ≤ memoryCeiling, w)
  report n w := w.push (.noticed n)
  nodeBytes := layout.nodeBytes
  slotBytes := layout.slotBytes

end SeparateChaining.Scenario
