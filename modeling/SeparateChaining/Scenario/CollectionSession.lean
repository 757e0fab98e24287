import SeparateChaining.Scenario.Collection
import SeparateChaining.Table.Lifetime

/-!
# Sessions with a collection

A session makes a collection and takes steps with it. One copy of the collection can be kept aside
and exchanged with it.
-/

namespace SeparateChaining.Scenario

/-- A collection, the copy kept aside, and the identity of the next copy. -/
structure CollectionSession (V : Type) where
  table : Table V
  aside : Option (Table V)
  fresh : Nat

/-- What is reported of a step: its outcome, elements, buckets, and whether it is empty. -/
structure CollectionReport where
  outcome : Except Failure Reply
  size : Nat × Nat × Bool

namespace CollectionSession

variable {V : Type}

def report (outcome : Except Failure Reply) (s : CollectionSession V) : CollectionReport :=
  ⟨outcome, s.table.size, s.table.bucketCount, s.table.isEmpty⟩

/-- Takes a step. -/
def step (c : Collection V) (a : CollectionAction) (s : CollectionSession V) :
    CollectionReport × CollectionSession V :=
  let ⟨table, aside, fresh⟩ := s
  let (outcome, s) : Except Failure Reply × CollectionSession V :=
    match a with
    | .fork =>
      match Table.copy c.env fresh ⟨table, ()⟩ with
      | .ok copy r => (.ok .nothing, ⟨r.table, some copy, fresh + 1⟩)
      | .error p r => (.error (.panicked p), ⟨r.table, aside, fresh + 1⟩)
    | .swap =>
      match aside with
      | some other => (.ok .nothing, ⟨other, some table, fresh⟩)
      | none => (.ok .nothing, ⟨table, none, fresh⟩)
    | a =>
      match c.perform a ⟨table, ()⟩ with
      | .ok (some reply) r => (.ok reply, ⟨r.table, aside, fresh⟩)
      | .ok none r => (.error .badRequest, ⟨r.table, aside, fresh⟩)
      | .error p r => (.error (.panicked p), ⟨r.table, aside, fresh⟩)
  (report outcome s, s)

/-- Takes steps in order. -/
def steps (c : Collection V) (as : List CollectionAction) (s : CollectionSession V) :
    List CollectionReport :=
  (as.foldl (fun (rs, s) a =>
    let (r, s) := step c a s
    (rs.push r, s)) (#[], s)).1.toList

end CollectionSession

/-- What a scenario of a collection reports: why it could not be made, or its steps. -/
inductive CollectionTranscript
  | failed (e : Failure)
  /-- The first report is of the collection as it was made. -/
  | made (reports : List CollectionReport)

namespace Collection

variable {V : Type}

/-- An empty collection for so many elements. If it is `tried` for, a refusal is reported. -/
def make (c : Collection V) (tried : Bool) (capacity : Nat) : Except Failure (Table V) :=
  if tried then
    match Table.create c.env.toSupply V 0 capacity () with
    | .ok (.ok t) _ => .ok t
    | .ok (.error e) _ => .error (.refused e)
    | .error p _ => .error (.panicked p)
  else
    match Table.create! c.env.toSupply V 0 capacity () with
    | .ok t _ => .ok t
    | .error p _ => .error (.panicked p)

/-- Makes a collection, puts the first elements in, and takes the steps. -/
def play (c : Collection V) (tried : Bool) (capacity : Nat) (elements : List (Key × Int64))
    (as : List CollectionAction) : CollectionTranscript :=
  match c.make tried capacity with
  | .error e => .failed e
  | .ok t =>
    match c.perform (.extend elements) ⟨t, ()⟩ with
    | .error p _ => .failed (.panicked p)
    | .ok _ r =>
      let s : CollectionSession V := ⟨r.table, none, 1⟩
      .made (s.report (.ok .nothing) :: s.steps c as)

end Collection

end SeparateChaining.Scenario
