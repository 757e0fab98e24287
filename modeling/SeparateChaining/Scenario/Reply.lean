import SeparateChaining.Scenario.Probe

/-!
# Replies

What a step replies when it is done, or why it fails: a request was refused, something panicked, or
the step asked for what is not there.
-/

namespace SeparateChaining.Scenario

inductive Failure
  | refused (e : AllocError)
  | panicked (p : Panic)
  /-- The step asks for what the scenario does not have. -/
  | badRequest
  deriving DecidableEq

structure Statistics where
  size : Nat
  isEmpty : Bool
  bucketCount : Nat
  maxBucketCount : Nat
  occupied : Nat
  loadFactor : Float32
  limit : Option UInt64

/-- What an iterator did: what it announced, what it yielded, what it announced then, what a copy
of it yielded, and its next two answers. -/
structure Iteration where
  announced : Nat
  items : List Item
  left : Nat
  rest : List Item
  tail : Option Item × Option Item

inductive Reply
  | nothing
  | flag (b : Bool)
  | number (n : Nat)
  | text (s : String)
  | element (v : Option Item)
  | integer (n : Option Int64)
  | integers (ns : List Int64)
  | items (vs : List Item)
  | comparison (same : Bool)
  | insertion (place : Option Item) (inserted : Bool) (rejected : Option Item)
  | range (first last : Option Item) (walk : List Item)
  | occupancy (chains : List (Nat × Nat))
  | statistics (s : Statistics)
  | iteration (it : Iteration)
  /-- An offered value was taken in. -/
  | stored (v : Item)
  /-- An offered value was handed back for one that is there already. -/
  | resident (v rejected : Item)
  /-- What an iterator announced, and what it yielded. -/
  | announced (n : Nat) (vs : List Item)
  | filled (linked : Nat) (stopped : Option AllocError)
  | reentry (outer : Except Failure Reply) (inner : List (Except Panic ProbeAnswer))

end SeparateChaining.Scenario
