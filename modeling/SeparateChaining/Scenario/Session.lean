import SeparateChaining.Scenario.Foreign
import SeparateChaining.Scenario.Reply
import SeparateChaining.Scenario.Step
import SeparateChaining.Store
import SeparateChaining.Table.Insertion

/-!
# Sessions

A session carries a scenario out: tables in one world, and cursors kept under names. A step that
fails leaves the session as the failure left it.
-/

namespace SeparateChaining.Scenario

structure Session where
  store : Store Item World
  cursors : List (String × Cursor)

abbrev Play := EStateM Failure Session

namespace Play

variable {α : Type}

def badRequest : Play α := throw .badRequest

/-- Runs code on the store. Its panic is a failure of the step. -/
def onStore (act : EStateM Panic (Store Item World) α) : Play α := fun s =>
  let ⟨store, cursors⟩ := s
  match act store with
  | .ok a store => .ok a ⟨store, cursors⟩
  | .error p store => .error (.panicked p) ⟨store, cursors⟩

/-- Runs an operation on the table numbered `i`. -/
def onTable (i : Nat) (op : Op World Item α) : Play α := do
  match ← onStore (Store.on i op) with
  | some a => return a
  | none => badRequest

/-- Likewise, for an operation that reports refusals. -/
def onTableTrying (i : Nat) (op : Op World Item (Except AllocError α)) : Play α := do
  match ← onTable i op with
  | .ok a => return a
  | .error e => throw (.refused e)

def changeWorld (f : World → World) : Play Unit :=
  modify fun s => { s with store.world := f s.store.world }

/-- Runs a step while no memory can be had, if `starved` says so. -/
def starving (starved : Bool) (act : Play α) : Play α := fun s =>
  let set (b : Bool) (s : Session) : Session := { s with store.world.starved := b }
  match act (set starved s) with
  | .ok a s => .ok a (set false s)
  | .error e s => .error e (set false s)

def cursorNamed (name : String) : Play Cursor := do
  match (← get).cursors.lookup name with
  | some c => return c
  | none => badRequest

def keep (name : Option String) (c : Cursor) : Play Unit :=
  match name with
  | some name => modify fun s => { s with cursors := (name, c) :: s.cursors }
  | none => return ()

end Play

/-! ## Operations that only scenarios use -/

/-- What a cursor points at. -/
def elementAt (t : Table Item) (c : Cursor) : Option Item := (t.get c).toOption

/-- Inserts `n` more values, for the numbers from `i` on, and counts those linked. -/
def fill (tr : Treatment) (start stride : UInt64) (equal : Bool) (i linked : Nat) :
    Nat → Op World Item Reply
  | 0 => return .filled linked none
  | n + 1 => do
    let k := tr.keyType.ofNumber (start + i.toUInt64 * stride)
    let v := tr.item k (Int64.ofNat i)
    let r ←
      if equal then (do return (← Table.insertAny (environment tr) v).map fun _ => true)
      else (do return (← Table.insertNew (environment tr) v).map (·.isLinked))
    match r with
    | .ok inserted => fill tr start stride equal (i + 1) (linked + inserted.toNat) n
    | .error e => return .filled linked (some e)

/-- Walks on from `c`, the element numbered `i`, for at most `fuel` elements, and erases every
`n`th. `erased` lists the values erased before, last first. -/
def eraseEvery (tr : Treatment) (n i : Nat) (c : Cursor) (erased : List Item) :
    Nat → Op World Item (List Item)
  | 0 => return erased.reverse
  | fuel + 1 => do
    if c.isEnd then return erased.reverse
    if i % n = 0 then
      let v ← .query (·.get c)
      let c ← Table.erase (environment tr) c
      eraseEvery tr n (i + 1) c (v :: erased) fuel
    else
      let c ← .query (·.next c)
      eraseEvery tr n (i + 1) c erased fuel

/-- Drives an iterator for at most `limit` elements. -/
def drive (it : Iterator Item) (limit : Option Nat) : Iteration :=
  let (items, it') := it.take (limit.getD (it.chains.nodes.slots.size + 1))
  let (a, it'') := it'.next
  let (b, _) := it''.next
  ⟨it.remaining, items, it'.remaining, it'.toList, (a, b)⟩

/-- The values of a table as a collection for debugging. -/
def tableLayout (t : Table Item) : Text.Layout := .set (t.iterator.toList.map Item.layout)

def statistics (t : Table Item) (limit : Option UInt64) : Statistics where
  size := t.size
  isEmpty := t.isEmpty
  bucketCount := t.bucketCount
  maxBucketCount := Ladder.top
  occupied := t.occupied
  loadFactor := t.loadFactor
  limit

/-! ## Steps -/

namespace Play

/-- Replies with what a cursor points at, and keeps the cursor. -/
def replyCursor (i : Nat) (name : Option String) (c : Cursor) : Play Reply := do
  let v ← onTable i (.read fun t => elementAt t c)
  keep name c
  return .element v

def replyInsertion (i : Nat) (name : Option String) (r : Placement Item) : Play Reply := do
  let v ← onTable i (.read fun t => elementAt t r.cursor)
  keep name r.cursor
  return .insertion v r.isLinked r.rejected?

/-- Does an action with the table numbered `i`. -/
def act (tr : Treatment) (i : Nat) (name name2 : Option String) : Action → Play Reply
  | .create capacity => do
    match ← onStore (Store.create (supply tr.layout) capacity) with
    | .ok n => return .number n
    | .error e => throw (.refused e)
  | .clone => do
    changeWorld fun w => { w with silent := true }
    match ← onStore (Store.copy (environment tr) i) with
    | some n => return .number n
    | none => badRequest
  | .drop => do
    if ← onStore (Store.drop (environment tr) i) then return .nothing else badRequest
  | .first => do replyCursor i name (← onTable i (.read (·.firstCursor)))
  | .past => do replyCursor i name (← onTable i (.read (·.endCursor)))
  | .find k => do replyCursor i name (← onTable i (Table.find env k))
  | .next c => do
    let c ← cursorNamed c
    replyCursor i name (← onTable i (.query (·.next c)))
  | .erase c => do
    let c ← cursorNamed c
    replyCursor i name (← onTable i (Table.erase env c))
  | .insertNew v => do replyInsertion i name (← onTable i (Table.insertNew! env v))
  | .insertAny v => do replyCursor i name (← onTable i (Table.insertAny! env v))
  | .tryInsertNew v starved => do
    let r ← starving starved (onTableTrying i (Table.insertNew env v))
    replyInsertion i name r
  | .tryInsertAny v starved => do
    let c ← starving starved (onTableTrying i (Table.insertAny env v))
    replyCursor i name c
  | .range k => do
    let (a, b) ← onTable i (Table.range env k)
    let (va, vb) ← onTable i (.read fun t => (elementAt t a, elementAt t b))
    let walk ← onTable i (.query (·.walk a b))
    keep name a
    keep name2 b
    return .range va vb walk
  | .get c => do
    let c ← cursorNamed c
    return .element (some (← onTable i (.query (·.get c))))
  | .modify c add key => do
    let c ← cursorNamed c
    let change (v : Item) : Item := ⟨key.getD v.key, v.payload.map (· + add)⟩
    onTable i (.update fun t => (t.modify c change).map ((), ·))
    return .element (some (← onTable i (.query (·.get c))))
  | .remove c => do
    let c ← cursorNamed c
    return .element (some (← onTable i (Table.remove env c)))
  | .compare a b => do
    match (← cursorNamed a).same (← cursorNamed b) with
    | .ok r => return .comparison r
    | .error p => throw (.panicked p)
  | .isEnd c => do return .flag (← cursorNamed c).isEnd
  | .contains k => do return .flag (← onTable i (Table.contains env k))
  | .count k => do return .number (← onTable i (Table.count env k))
  | .eraseRun k => do return .number (← onTable i (Table.eraseRun env k))
  | .homeBucket k => do return .number (← onTable i (Table.homeBucket env k))
  | .bucketSize n => do return .number (← onTable i (.query (·.bucketSize n)))
  | .check => do return .flag (← onTable i (Table.check env))
  | .hashOf k => do return .number (← onTable i (env.hashOp k)).toNat
  | .occupancy => do return .occupancy (← onTable i (.read (·.occupancy)))
  | .statistics => do
    let limit := (← EStateM.get).store.world.budget.map (·.limit)
    return .statistics (← onTable i (.read fun t => Scenario.statistics t limit))
  | .iterate limit => do
    return .iteration (← onTable i (.read fun t => drive t.iterator limit))
  | .iterateRun k limit => do
    return .iteration (drive (← onTable i (Table.iteratorOf env k)) limit)
  | .values => do return .items (← onTable i (.read (·.iterator.toList)))
  | .walk => do
    return .items (← onTable i (.query fun t => t.walk t.firstCursor t.endCursor))
  | .debug pretty => do
    let layout ← onTable i (.read tableLayout)
    return .text (if pretty then layout.pretty else layout.inline)
  | .clear => do
    onTable i (Table.clear env)
    return .nothing
  | .rehash n => do
    onTable i (Table.rehash! env n)
    return .nothing
  | .reserve n => do
    onTable i (Table.reserve! env n)
    return .nothing
  | .tryRehash n starved => do
    starving starved (onTableTrying i (Table.rehash env n))
    return .nothing
  | .tryReserve n starved => do
    starving starved (onTableTrying i (Table.reserve env n))
    return .nothing
  | .fill n start stride equal => onTable i (Scenario.fill tr start stride equal 0 0 n)
  | .eraseEvery n => do
    return .items (← onTable i do
      let (c, len) ← .read fun t => (t.firstCursor, t.size)
      Scenario.eraseEvery tr (max 1 n) 0 c [] len)
  | .poison p => do
    changeWorld fun w => { w with poison := p }
    return .nothing
  | .unknown => badRequest
where
  env := environment tr

/-- Takes a step. -/
def step (tr : Treatment) : Step → Play Reply
  | .act i action name name2 => do
    try act tr i name name2 action
    finally changeWorld fun w => { w with silent := false }
  | .reenter i kind skip probe catches inner => do
    let t ← onTable i (.read id)
    let bystander := if inner.table = i then none else some t
    changeWorld fun w =>
      { w with trigger := some ⟨kind, skip, probe, bystander, catches⟩, answers := [] }
    let outer ← tryCatch (Except.ok <$> step tr inner) (fun e => pure (Except.error e))
    let answers := (← get).store.world.answers
    changeWorld fun w => { w with trigger := none, answers := [] }
    return .reentry outer answers

end Play

end SeparateChaining.Scenario
