import SeparateChaining.Scenario.Session

/-!
# Scripts and transcripts

A script is a scenario from its first table to its last step. Playing it makes a transcript: a
report of every step, and what is left of the budget once every table is released.
-/

namespace SeparateChaining.Scenario

/-- What is reported of the budget: live nodes, live buckets, units available, and refusals. -/
structure BudgetReport where
  nodes : UInt64
  buckets : UInt64
  available : UInt64
  refusals : UInt64

/-- What is reported of a step: its outcome, elements and buckets of the table it is about and its
values in order, the budget, and the record. -/
structure Report where
  outcome : Except Failure Reply
  size : Option (Nat × Nat)
  order : Option (List Item)
  budget : Option BudgetReport
  events : List String

/-- Sorts each stretch of disposals. -/
def sortDisposals (ty : KeyType) (es : List Event) : List String :=
  (es.splitBy fun a b => a.kind = .drop && b.kind = .drop).flatMap fun run =>
    (run.map (·.render ty)).mergeSort (fun a b => !(b < a))

def Step.isDrop : Step → Bool
  | act _ .drop .. => true
  | _ => false

/-- Takes a step and reports it. -/
def Session.report (tr : Treatment) (dump : Bool) (step : Step) (s : Session) :
    Report × Session :=
  let s := { s with store.world.record := #[] }
  let (outcome, s) :=
    match Play.step tr step s with
    | .ok r s => (Except.ok r, s)
    | .error e s => (.error e, s)
  let t := s.store.table? step.table
  let es := s.store.world.record.toList
  let events :=
    if step.isDrop then sortDisposals tr.keyType es else es.map (·.render tr.keyType)
  ({ outcome
     size := t.map fun t => (t.size, t.bucketCount)
     order := if dump then t.map (·.values) else none
     budget := s.store.world.budget.map fun b =>
       ⟨b.liveNodes, b.liveBuckets, b.available, b.refusals⟩
     events }, s)

/-- What a scenario reports: every step, and the units in use once all tables are released. -/
structure Transcript where
  reports : List Report
  inUseAfterDrop : Option UInt64

structure Script where
  treatment : Treatment
  budget : Option UInt64
  /-- The capacity of the first table. -/
  capacity : Nat
  recorded : List EventKind
  dump : Bool
  steps : List Step

/-- Carries a scenario out. The first report is of the creation of table 0. -/
def Script.play (sc : Script) : Transcript :=
  let start : Session := ⟨.ofWorld (.ofBudget (sc.budget.map .ofLimit) sc.recorded), []⟩
  let steps := .act 0 (.create sc.capacity) none none :: sc.steps
  let (reports, s) := steps.foldl
    (fun (rs, s) step =>
      let (r, s) := s.report sc.treatment sc.dump step
      (rs.push r, s))
    (#[], start)
  let store := s.store.dropAll (plainEnvironment sc.treatment)
  ⟨reports.toList, store.world.budget.map (·.inUse)⟩

end SeparateChaining.Scenario
