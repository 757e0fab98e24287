import SeparateChaining.Environment

/-!
# Operations

An operation runs on a table and the world it works in. When it panics, table and world stay as
they are at that moment, and nothing is undone but what the operation itself undoes.

`fenced` is how an operation keeps foreign code from calling back into a table that is half
changed: the fence is up while the body runs, a second operation that wants the fence panics, and
the fence comes down however the body ends. Only builds with debug assertions have it, and these
are modelled here; in a release build the body runs as it is.

`onPanic` is how a value that an operation holds is disposed of when the operation does not get to
its end.
-/

namespace SeparateChaining

/-- A table and the world it works in. -/
structure Running (V W : Type) where
  table : Table V
  world : W

abbrev Op (W V α : Type) := EStateM Panic (Running V W) α

namespace Op

variable {V W α β : Type}

/-- Runs code that acts on the world alone. -/
@[inline] def world (act : EStateM Panic W α) : Op W V α := fun s =>
  let ⟨t, w⟩ := s
  match act w with
  | .ok a w => .ok a ⟨t, w⟩
  | .error p w => .error p ⟨t, w⟩

/-- Runs foreign code, which sees the table. -/
@[inline] def call (act : Table V → EStateM Panic W α) : Op W V α := fun s =>
  let ⟨t, w⟩ := s
  match act t w with
  | .ok a w => .ok a ⟨t, w⟩
  | .error p w => .error p ⟨t, w⟩

/-- Reads something off the table. -/
def read (f : Table V → α) : Op W V α := fun s => .ok (f s.table) s

/-- Reads something off the table, or panics. -/
def query (f : Table V → Except Panic α) : Op W V α := fun s =>
  match f s.table with
  | .ok a => .ok a s
  | .error p => .error p s

/-- Changes the table. -/
def change (f : Table V → α × Table V) : Op W V α := fun s =>
  let ⟨t, w⟩ := s
  let (a, t) := f t
  .ok a ⟨t, w⟩

/-- Changes the table, or panics and leaves it. -/
def update (f : Table V → Except Panic (α × Table V)) : Op W V α := fun s =>
  match f s.table with
  | .ok (a, t) => .ok a { s with table := t }
  | .error p => .error p s

/-- Runs `body` with the fence up in the name of `op`. The fence comes down when `body` ends,
also when it panics. A fence that is up already is a panic, and stays up. -/
def fenced (op : Operation) (body : Op W V α) : Op W V α := fun s =>
  match s.table.fence with
  | some running => .error (.reentrant op running) s
  | none =>
    match body { s with table.fence := some op } with
    | .ok a s => .ok a { s with table.fence := none }
    | .error p s => .error p { s with table.fence := none }

/-- Runs `body`; if it panics, `cleanup` acts on the world before the panic goes on. -/
def onPanic (body : Op W V α) (cleanup : Table V → W → W) : Op W V α := fun s =>
  match body s with
  | .ok a s => .ok a s
  | .error p s => .error p { s with world := cleanup s.table s.world }

/-- What an operation that reports refusals becomes when a refusal is a panic. -/
def infallible (op : Op W V (Except AllocError α)) : Op W V α := do
  match ← op with
  | .ok a => return a
  | .error e => throw (.allocationFailed e)

end Op

/-! ## Foreign code as operations -/

namespace Environment

variable {V K W α : Type}

@[inline] def extractOp (env : Environment V K W) (v : V) : Op W V K :=
  .call fun t => env.extract t v

@[inline] def hashOp (env : Environment V K W) (k : K) : Op W V UInt64 :=
  .call fun t => env.hash t k

@[inline] def keyEqOp (env : Environment V K W) (a b : K) : Op W V Bool :=
  .call fun t => env.keyEq t a b

@[inline] def copyOp (env : Environment V K W) (v : V) : Op W V V :=
  .call fun t => env.copy t v

@[inline] def disposeOp (env : Environment V K W) (v : V) : Op W V Unit :=
  .call fun t => env.dispose t v

/-- Runs `body` while `v` is held: if it panics, `v` is disposed of as the panic unwinds. -/
def holding (env : Environment V K W) (v : V) (body : Op W V α) : Op W V α :=
  body.onPanic fun t w => env.disposeUnwinding t v w

/-- Runs `body` while all of `vs` are held. -/
def holdingAll (env : Environment V K W) (vs : List V) (body : Op W V α) : Op W V α :=
  body.onPanic fun t w => vs.foldl (fun w v => env.disposeUnwinding t v w) w

/-- Disposes of values one by one; when one panics, the rest still go as the panic unwinds. -/
def disposeAll (env : Environment V K W) : List V → Op W V Unit
  | [] => return ()
  | v :: vs => do
    env.holdingAll vs (env.disposeOp v)
    env.disposeAll vs

end Environment

end SeparateChaining
