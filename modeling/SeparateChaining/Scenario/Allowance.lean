import SeparateChaining.Scenario.Record
import SeparateChaining.Scenario.Reply
import SeparateChaining.Storage.Budget

/-!
# Scenarios of a budget

Requests made of one budget, or of a supply without limit, and what each leaves of the budget.
-/

namespace SeparateChaining.Scenario

inductive AllowanceStep
  | allocate (block : Block) (count : Nat)
  | deallocate (block : Block) (count : Nat)
  /-- A request that is none of the budget's business. -/
  | elsewhere
  | debug
  | unknown

structure AllowanceReport where
  outcome : Except Failure Reply
  budget : Budget
  events : List Event

/-- Takes a step. -/
def AllowanceStep.report (b : Budget) : AllowanceStep → AllowanceReport
  | allocate block count =>
    match b.allocate block count with
    | (.ok (), b') => ⟨.ok .nothing, b', []⟩
    | (.error e, b') => ⟨.error (.refused e), b', [.noticed (b.refusal block count)]⟩
  | deallocate block count =>
    match b.deallocate block count with
    | .ok b' => ⟨.ok .nothing, b', []⟩
    | .error p => ⟨.error (.panicked p), b, []⟩
  | elsewhere => ⟨.ok .nothing, b, []⟩
  | debug => ⟨.ok (.text b.debugText), b, []⟩
  | unknown => ⟨.error .badRequest, b, []⟩

/-- Takes steps in order, on a budget with nothing live at first. -/
def AllowanceStep.reports : Budget → List AllowanceStep → List AllowanceReport
  | _, [] => []
  | b, step :: steps =>
    let r := step.report b
    r :: reports r.budget steps

end SeparateChaining.Scenario
