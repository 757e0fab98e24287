import SeparateChaining.Hashing
import SeparateChaining.Scenario.World

/-!
# The foreign code of a scenario

Foreign code that watches itself. Each call first makes its entry in the record, then calls back
into a table if it is time to, then panics if its key is one that is refused, and only then does
its work. While a panic unwinds, disposing of a key makes its entry and nothing more.
-/

namespace SeparateChaining.Scenario

/-- How a scenario treats its keys. -/
structure Treatment where
  keyType : KeyType
  /-- Whether values are pairs. -/
  paired : Bool
  hashing : Hashing
  equality : Equality
  layout : NodeLayout

/-- What foreign code does between making its entry and doing its work. -/
abbrev Interlude := CallKind → Table Item → EStateM Panic World Unit

/-- The value made of a key and a number. -/
def Treatment.item (tr : Treatment) (k : Key) (n : Int64) : Item :=
  ⟨k, if tr.paired then some n else none⟩

@[inline] def note (e : Event) : EStateM Panic World Unit := fun w => .ok () (w.push e)

/-- Panics if one of `keys` is the one that `poison` names. -/
@[inline] def refuse (tr : Treatment) (what : String) (poison : Poison → Option Key)
    (keys : List Key) : EStateM Panic World Unit := fun w =>
  match poison w.poison with
  | none => .ok () w
  | some k =>
    if k ∈ keys then .error (.caller (what ++ " of " ++ k.render tr.keyType ++ " refused")) w
    else .ok () w

@[inline] def noteDisposal (k : Key) : EStateM Panic World Unit := fun w =>
  .ok () (w.noteDisposal k)

/-- The foreign code of a scenario, with an interlude in every call. -/
@[inline] def caller (tr : Treatment) (interlude : Interlude) : Caller Item Key World where
  extract t v := do
    note .extracted
    interlude .extract t
    return v.key
  hash t k := do
    note (.hashed k)
    interlude .hash t
    refuse tr "hash" (·.hash) [k]
    return tr.hashing.hash (tr.keyType.feed k)
  keyEq t a b := do
    note (.compared a b)
    interlude .eq t
    refuse tr "eq" (·.eq) [a, b]
    return tr.equality.holds a b
  copy _ v := do
    refuse tr "clone" (·.copy) [v.key]
    return v
  dispose t v := do
    noteDisposal v.key
    interlude .drop t
    refuse tr "drop" (·.drop) [v.key]
  disposeUnwinding _ v w := w.noteDisposal v.key

/-- Foreign code that never calls back. -/
def plainEnvironment (tr : Treatment) : Environment Item Key World :=
  { caller tr (fun _ _ => pure ()), supply tr.layout with }

/-- Calls back now. The table asked is left as it is. -/
def fire (tr : Treatment) (g : Trigger) (t : Table Item) : EStateM Panic World Unit := fun w =>
  match g.probe.ask (plainEnvironment tr) ⟨g.bystander.getD t, { w with trigger := none }⟩ with
  | .ok a ⟨_, w⟩ => .ok () { w with answers := w.answers ++ [.ok a] }
  | .error p ⟨_, w⟩ =>
    if g.catches then .ok () { w with answers := w.answers ++ [.error p] } else .error p w

/-- Calls back if it is time to, or counts a call that passes. -/
def Trigger.pull (tr : Treatment) (g : Trigger) (kind : CallKind) (t : Table Item) :
    EStateM Panic World Unit := fun w =>
  if g.kind ≠ some kind then .ok () w
  else
    match g.skip with
    | n + 1 => .ok () { w with trigger := some { g with skip := n } }
    | 0 => fire tr g t w

/-- Calls back if something waits for a call of this kind. -/
@[inline] def callBack (tr : Treatment) : Interlude := fun kind t w =>
  match w.trigger with
  | none => .ok () w
  | some g => g.pull tr kind t w

def environment (tr : Treatment) : Environment Item Key World :=
  { caller tr (callBack tr), supply tr.layout with }

end SeparateChaining.Scenario
