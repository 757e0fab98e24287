import SeparateChaining.Environment.Op
import SeparateChaining.Proofs.Chains.WellFormed

/-!
# Contracts

How operations are reasoned about. A contract fixes an invariant
between a table and its world, the panics and refusals that may come
out of an operation, and the answers that foreign code may give to
questions about keys. `Obeyed C env` says that every single use of the
environment keeps `C`. `Keeps C f d t op post` says that `op`, run on
`t` under fence `f`, keeps it as a whole: it ends with `post` or with a
panic that the contract allows, and either way leaves well-formed
chains and the fence as it found them.

Storage goes from a grant into the table, or from the table back to
whoever granted it, in several steps. The invariant therefore has a
ghost argument, the *debt*: the units that are granted and that the
table does not hold. A grant raises the debt and a return lowers it; a
node that enters a chain takes its unit out of the debt, and one that
leaves a chain puts it there. An operation that panics has no debt.

The laws of `Keeps` follow the operations of `Op`; a proof about an
operation applies them in the order in which it is written.
-/

namespace SeparateChaining

/-! ## Running operations -/

/-- The table under another fence. -/
def Table.fencedBy {V : Type} (t : Table V) (f : Option Operation) : Table V :=
  { t with fence := f }

theorem Table.fencedBy_eq {V : Type} {t : Table V} {f : Option Operation} (h : t.fence = f) :
    t.fencedBy f = t := by
  rw [← h]
  rfl

namespace Op

variable {V W α β : Type}

theorem run_read_bind (h : Table V → α) (g : α → Op W V β) (s : Running V W) :
    (read h >>= g) s = g (h s.table) s := rfl

theorem run_query_bind {q : Table V → Except Panic α} {s : Running V W} {a : α}
    (h : q s.table = .ok a) (g : α → Op W V β) : (query q >>= g) s = g a s := by
  show EStateM.bind (query q) g s = _
  rw [EStateM.bind, query]
  simp only [h]

/-! The four laws of `>>=` hold of whatever state an operation acts on. -/

section

variable {σ : Type} {op : EStateM Panic σ α} {g : α → EStateM Panic σ β} {s s' : σ} {a : α} {b : β}
  {p : Panic}

theorem run_bind_ok (h : op s = .ok a s') : (op >>= g) s = g a s' := by
  show EStateM.bind op g s = _
  rw [EStateM.bind, h]

theorem run_bind_error (h : op s = .error p s') (g : α → EStateM Panic σ β) :
    (op >>= g) s = .error p s' := by
  show EStateM.bind op g s = _
  rw [EStateM.bind, h]

theorem of_run_bind_ok (h : (op >>= g) s = .ok b s') :
    ∃ a s₁, op s = .ok a s₁ ∧ g a s₁ = .ok b s' := by
  cases hrun : op s with
  | ok a s₁ =>
      rw [run_bind_ok hrun] at h
      exact ⟨a, s₁, rfl, h⟩
  | error p s₁ =>
      rw [run_bind_error hrun] at h
      cases h

theorem of_run_bind_error (h : (op >>= g) s = .error p s') :
    op s = .error p s' ∨ ∃ a s₁, op s = .ok a s₁ ∧ g a s₁ = .error p s' := by
  cases hrun : op s with
  | ok a s₁ =>
      rw [run_bind_ok hrun] at h
      exact Or.inr ⟨a, s₁, rfl, h⟩
  | error q s₁ =>
      rw [run_bind_error hrun] at h
      cases h
      exact Or.inl rfl

end

theorem of_run_return_error {op : Op W V α} {g : α → β} {s s' : Running V W} {p : Panic}
    (h : (do return g (← op) : Op W V β) s = .error p s') : op s = .error p s' := by
  rcases of_run_bind_error h with hrun | ⟨a, s₁, -, hreturn⟩
  · exact hrun
  · cases hreturn

theorem run_infallible_ok {op : Op W V (Except AllocError α)} {s s' : Running V W} {a : α}
    (h : op s = .ok (.ok a) s') : op.infallible s = .ok a s' :=
  (run_bind_ok h).trans rfl

theorem run_infallible_error {op : Op W V (Except AllocError α)} {s s' : Running V W}
    {e : AllocError} (h : op s = .ok (.error e) s') :
    op.infallible s = .error (.allocationFailed e) s' :=
  (run_bind_ok h).trans rfl

theorem of_run_infallible_ok {op : Op W V (Except AllocError α)} {s s' : Running V W} {a : α}
    (h : op.infallible s = .ok a s') : op s = .ok (.ok a) s' := by
  obtain ⟨r, s₁, hrun, hrest⟩ := of_run_bind_ok h
  rcases r with e | b
  · cases hrest
  · cases hrest
    exact hrun

theorem of_run_infallible_error {op : Op W V (Except AllocError α)} {s s' : Running V W}
    {p : Panic} (h : op.infallible s = .error p s') :
    op s = .error p s' ∨ ∃ e, op s = .ok (.error e) s' ∧ p = .allocationFailed e := by
  rcases of_run_bind_error h with hrun | ⟨r, s₁, hrun, hrest⟩
  · exact Or.inl hrun
  · rcases r with e | a
    · cases hrest
      exact Or.inr ⟨e, hrun, rfl⟩
    · cases hrest

theorem run_query_ok {q : Table V → Except Panic α} {s : Running V W} {a : α}
    (h : q s.table = .ok a) : query q s = .ok a s := by
  rw [query]
  simp only [h]

theorem run_query_error {q : Table V → Except Panic α} {s : Running V W} {p : Panic}
    (h : q s.table = .error p) : query q s = .error p s := by
  rw [query]
  simp only [h]

theorem run_world_ok {act : EStateM Panic W α} {t : Table V} {w w' : W} {a : α}
    (h : act w = .ok a w') : world act ⟨t, w⟩ = .ok a ⟨t, w'⟩ := by
  rw [world]
  simp only [h]

theorem run_world_error {act : EStateM Panic W α} {t : Table V} {w w' : W} {p : Panic}
    (h : act w = .error p w') : world act ⟨t, w⟩ = .error p ⟨t, w'⟩ := by
  rw [world]
  simp only [h]

theorem run_onPanic_ok {op : Op W V α} {s s' : Running V W} {a : α} (h : op s = .ok a s')
    (cleanup : Table V → W → W) : op.onPanic cleanup s = .ok a s' := by
  rw [onPanic]
  simp only [h]

theorem run_onPanic_error {op : Op W V α} {s s' : Running V W} {p : Panic}
    (h : op s = .error p s') (cleanup : Table V → W → W) :
    op.onPanic cleanup s = .error p { s' with world := cleanup s'.table s'.world } := by
  rw [onPanic]
  simp only [h]

theorem of_run_onPanic_ok {op : Op W V α} {cleanup : Table V → W → W} {s s' : Running V W} {a : α}
    (h : op.onPanic cleanup s = .ok a s') : op s = .ok a s' := by
  cases hrun : op s with
  | ok b s₁ => rwa [run_onPanic_ok hrun] at h
  | error p s₁ =>
      rw [run_onPanic_error hrun] at h
      cases h

theorem of_run_call_ok {act : Table V → EStateM Panic W α} {t : Table V} {w : W} {a : α}
    {s : Running V W} (h : call act ⟨t, w⟩ = .ok a s) :
    ∃ w', act t w = .ok a w' ∧ s = ⟨t, w'⟩ := by
  rw [call] at h
  cases hrun : act t w with
  | ok b w' =>
      simp only [hrun] at h
      cases h
      exact ⟨w', rfl, rfl⟩
  | error p w' =>
      simp only [hrun] at h
      cases h

theorem of_run'_eq {op : Op W V α} {s : Running V W} {a : α} (h : op.run' s = some a) :
    ∃ s', op s = .ok a s' := by
  delta EStateM.run' EStateM.run at h
  cases hrun : op s with
  | ok b s' =>
      rw [hrun] at h
      cases h
      exact ⟨s', rfl⟩
  | error p s' =>
      rw [hrun] at h
      cases h

theorem run_bind_congr {op op' : Op W V α} {s s' : Running V W} (h : op s = op' s')
    {g : α → Op W V β} : (op >>= g) s = (op' >>= g) s' := by
  show EStateM.bind op g s = EStateM.bind op' g s'
  rw [EStateM.bind, EStateM.bind, h]

theorem fenced_congr {op : Operation} {body body' : Op W V α} {t t' : Table V} {w w' : W}
    (h : body ⟨t.fencedBy (some op), w⟩ = body' ⟨t'.fencedBy (some op), w'⟩) :
    fenced op body ⟨t.fencedBy none, w⟩ = fenced op body' ⟨t'.fencedBy none, w'⟩ := by
  unfold fenced
  simp only [Table.fencedBy] at h ⊢
  rw [h]

theorem run_fenced_ok {op : Operation} {body : Op W V α} {t : Table V} {w : W} {a : α}
    {s : Running V W} (h : body ⟨t.fencedBy (some op), w⟩ = .ok a s) :
    fenced op body ⟨t.fencedBy none, w⟩ = .ok a ⟨s.table.fencedBy none, s.world⟩ := by
  unfold fenced
  simp only [Table.fencedBy] at h ⊢
  rw [h]

theorem run_fenced_error {op : Operation} {body : Op W V α} {t : Table V} {w : W} {p : Panic}
    {s : Running V W} (h : body ⟨t.fencedBy (some op), w⟩ = .error p s) :
    fenced op body ⟨t.fencedBy none, w⟩ = .error p ⟨s.table.fencedBy none, s.world⟩ := by
  unfold fenced
  simp only [Table.fencedBy] at h ⊢
  rw [h]

theorem of_run_fenced_ok {op : Operation} {body : Op W V α} {t : Table V} {w : W} {a : α}
    {s : Running V W} (hfence : t.fence = none) (h : fenced op body ⟨t, w⟩ = .ok a s) :
    ∃ s', body ⟨t.fencedBy (some op), w⟩ = .ok a s'
      ∧ s = ⟨s'.table.fencedBy none, s'.world⟩ := by
  rw [← Table.fencedBy_eq hfence] at h
  cases hrun : body ⟨t.fencedBy (some op), w⟩ with
  | ok b s' =>
      rw [run_fenced_ok hrun] at h
      cases h
      exact ⟨s', rfl, rfl⟩
  | error p s' =>
      rw [run_fenced_error hrun] at h
      cases h

theorem run_change_bind (h : Table V → α × Table V) (g : α → Op W V β) (s : Running V W) :
    (change h >>= g) s = g (h s.table).1 ⟨(h s.table).2, s.world⟩ := rfl

/-! Whether an operation answers or panics, it leaves a table. -/

/-- The operation has ended, with an answer or a panic, and `t` is left. -/
def Leaves (t : Table V) : EStateM.Result Panic (Running V W) α → Prop
  | .ok _ s => s.table = t
  | .error _ s => s.table = t

theorem Leaves.unique {t t' : Table V} {r : EStateM.Result Panic (Running V W) α}
    (h : Leaves t r) (h' : Leaves t' r) : t = t' := by
  cases r with
  | ok a s => exact Eq.trans (Eq.symm h) h'
  | error p s => exact Eq.trans (Eq.symm h) h'

/-- The table that is left when an operation has ended, panic or not. -/
def left : EStateM.Result Panic (Running V W) α → Table V
  | .ok _ s => s.table
  | .error _ s => s.table

theorem leaves_left (r : EStateM.Result Panic (Running V W) α) : Leaves (left r) r := by
  cases r with
  | ok a s => rfl
  | error p s => rfl

theorem Leaves.bind {op : Op W V α} {g : α → Op W V β} {t : Table V} {s : Running V W}
    (hop : Leaves t (op s)) (hg : ∀ a w, Leaves t (g a ⟨t, w⟩)) : Leaves t ((op >>= g) s) := by
  cases hrun : op s with
  | ok a s' =>
      rw [hrun] at hop
      obtain ⟨table, w⟩ := s'
      obtain rfl : table = t := hop
      rw [run_bind_ok hrun]
      exact hg a w
  | error p s' =>
      rw [hrun] at hop
      rw [run_bind_error hrun]
      exact hop

theorem Leaves.of_run_bind_ok {op : Op W V α} {g : α → Op W V β} {t : Table V}
    {s s' : Running V W} {b : β} (hop : Leaves t (op s)) (h : (op >>= g) s = .ok b s') :
    ∃ a w, op s = .ok a ⟨t, w⟩ ∧ g a ⟨t, w⟩ = .ok b s' := by
  obtain ⟨a, ⟨table, w⟩, hrun, hrest⟩ := Op.of_run_bind_ok h
  rw [hrun] at hop
  obtain rfl : table = t := hop
  exact ⟨a, w, hrun, hrest⟩

theorem Leaves.bind_congr {op : Op W V α} {g g' : α → Op W V β} {t : Table V} {s : Running V W}
    (hop : Leaves t (op s)) (hg : ∀ a w, g a ⟨t, w⟩ = g' a ⟨t, w⟩) :
    (op >>= g) s = (op >>= g') s := by
  cases hrun : op s with
  | ok a s' =>
      rw [hrun] at hop
      obtain ⟨table, w⟩ := s'
      obtain rfl : table = t := hop
      rw [run_bind_ok hrun, run_bind_ok hrun]
      exact hg a w
  | error p s' => rw [run_bind_error hrun, run_bind_error hrun]

theorem Leaves.onPanic {body : Op W V α} {t : Table V} {s : Running V W} (h : Leaves t (body s))
    (cleanup : Table V → W → W) : Leaves t (body.onPanic cleanup s) := by
  rw [Op.onPanic]
  cases hrun : body s with
  | ok a s' =>
      rw [hrun] at h
      exact h
  | error p s' =>
      rw [hrun] at h
      exact h

theorem leaves_query (q : Table V → Except Panic α) (s : Running V W) :
    Leaves s.table (query q s) := by
  rw [query]
  cases q s.table with
  | ok a => rfl
  | error p => rfl

theorem leaves_call (act : Table V → EStateM Panic W α) (s : Running V W) :
    Leaves s.table (call act s) := by
  obtain ⟨t, w⟩ := s
  rw [call]
  cases act t w with
  | ok a w' => rfl
  | error p w' => rfl

theorem leaves_world (act : EStateM Panic W α) (s : Running V W) :
    Leaves s.table (world act s) := by
  obtain ⟨t, w⟩ := s
  rw [world]
  cases act w with
  | ok a w' => rfl
  | error p w' => rfl

end Op

/-! ## Debts -/

/-- Units of storage that are granted and that the table does not hold. -/
@[ext] structure Debt where
  nodes : Nat
  buckets : Nat

namespace Debt

instance : Zero Debt := ⟨⟨0, 0⟩⟩

def add (d : Debt) : Block → Nat → Debt
  | .node, n => { d with nodes := d.nodes + n }
  | .bucket, n => { d with buckets := d.buckets + n }

def sub (d : Debt) : Block → Nat → Debt
  | .node, n => { d with nodes := d.nodes - n }
  | .bucket, n => { d with buckets := d.buckets - n }

theorem add_sub (d : Debt) (b : Block) (n : Nat) : (d.add b n).sub b n = d := by
  cases b with
  | node => simp [add, sub]
  | bucket => simp [add, sub]

end Debt

/-! ## Contracts -/

/-- What is kept while operations run. -/
structure Contract (V K W : Type) where
  /-- Holds between debt, table and world, whatever the table's fence is. -/
  inv : Debt → Table V → W → Prop
  panics : Panic → Prop
  refuses : AllocError → Prop
  /-- The keys that a value may be said to have. -/
  key : V → K → Prop
  /-- The hashes that a key may be said to have. -/
  hash : K → UInt64 → Prop
  /-- What may be said to a comparison of two keys. -/
  eq : K → K → Bool → Prop

namespace Contract

variable {V K W α β : Type} {C : Contract V K W} {env : Environment V K W}
  {f : Option Operation} {d : Debt} {t : Table V}

/-- The environment was used as the contract allows: either with an answer that is `ok`, or with a
panic, after which nothing is owed. -/
def Settles (C : Contract V K W) (d : Debt) (t : Table V) (ok : α → Prop) :
    EStateM.Result Panic W α → Prop
  | .ok a w => C.inv d t w ∧ ok a
  | .error p w => C.inv 0 t w ∧ C.panics p

/-- Storage was requested, and is owed if it was granted. -/
def Grants (C : Contract V K W) (d : Debt) (t : Table V) (b : Block) (n : Nat) :
    Except AllocError Unit × W → Prop
  | (.ok (), w) => C.inv (d.add b n) t w
  | (.error e, w) => C.inv d t w ∧ C.refuses e

/-- Every use of the environment keeps the contract. Foreign code runs only while nothing is owed,
whatever table it sees. -/
structure Obeyed (C : Contract V K W) (env : Environment V K W) : Prop where
  extract : ∀ t seen v w, C.inv 0 t w → C.Settles 0 t (C.key v) (env.extract seen v w)
  hash : ∀ t seen k w, C.inv 0 t w → C.Settles 0 t (C.hash k) (env.hash seen k w)
  keyEq : ∀ t seen a b w, C.inv 0 t w → C.Settles 0 t (C.eq a b) (env.keyEq seen a b w)
  dispose : ∀ t seen v w, C.inv 0 t w → C.Settles 0 t (fun _ => True) (env.dispose seen v w)
  unwinding : ∀ t seen v w, C.inv 0 t w → C.inv 0 t (env.disposeUnwinding seen v w)
  report : ∀ d t n w, C.inv d t w → C.inv d t (env.report n w)
  reserve : ∀ d t bytes w, C.inv d t w → C.inv d t (env.reserve bytes w).2
  unreserved : ∀ bytes w cause, (env.reserve bytes w).1 = false → C.refuses (.outOfMemory cause)
  allocate : ∀ d t b n w, C.inv d t w → C.Grants d t b n (env.allocate b n w)
  deallocate : ∀ d t b n w, C.inv (d.add b n) t w →
    C.Settles d t (fun _ => True) (env.deallocate b n w)

/-- Copying values keeps the contract too. No operation of a table copies but that which copies the
table. -/
def Copies (C : Contract V K W) (env : Environment V K W) : Prop :=
  ∀ t seen v w, C.inv 0 t w → C.Settles 0 t (fun _ => True) (env.copy seen v w)

theorem Obeyed.unwindAll (henv : C.Obeyed env) {seen : Table V} (vs : List V) {w : W}
    (hinv : C.inv 0 t w) :
    C.inv 0 t (vs.foldl (fun w v => env.disposeUnwinding seen v w) w) := by
  induction vs generalizing w with
  | nil => exact hinv
  | cons v vs ih => exact ih (henv.unwinding t seen v w hinv)

/-- The contract, and besides that the table is `t₀`. -/
def pin (C : Contract V K W) (t₀ : Table V) : Contract V K W :=
  { C with inv := fun d t w => t = t₀ ∧ C.inv d t w }

theorem Settles.pin {t₀ : Table V} {ok : α → Prop} {r : EStateM.Result Panic W α}
    (h : C.Settles d t ok r) (ht : t = t₀) : (C.pin t₀).Settles d t ok r := by
  cases r with
  | ok a w => exact ⟨⟨ht, h.1⟩, h.2⟩
  | error p w => exact ⟨⟨ht, h.1⟩, h.2⟩

theorem Obeyed.pin (henv : C.Obeyed env) (t₀ : Table V) : (C.pin t₀).Obeyed env where
  extract t seen v w h := (henv.extract t seen v w h.2).pin h.1
  hash t seen k w h := (henv.hash t seen k w h.2).pin h.1
  keyEq t seen a b w h := (henv.keyEq t seen a b w h.2).pin h.1
  dispose t seen v w h := (henv.dispose t seen v w h.2).pin h.1
  unwinding t seen v w h := ⟨h.1, henv.unwinding t seen v w h.2⟩
  report d t n w h := ⟨h.1, henv.report d t n w h.2⟩
  reserve d t bytes w h := ⟨h.1, henv.reserve d t bytes w h.2⟩
  unreserved := henv.unreserved
  allocate d t b n w h := by
    have hgrants := henv.allocate d t b n w h.2
    rcases hrun : env.allocate b n w with ⟨e | u, w'⟩
    · rw [hrun] at hgrants
      exact ⟨⟨h.1, hgrants.1⟩, hgrants.2⟩
    · rw [hrun] at hgrants
      exact ⟨h.1, hgrants⟩
  deallocate d t b n w h := (henv.deallocate d t b n w h.2).pin h.1

theorem Copies.pin (hcopies : C.Copies env) (t₀ : Table V) : (C.pin t₀).Copies env :=
  fun t seen v w h => (hcopies t seen v w h.2).pin h.1

/-! ## Keeping a contract -/

/-- How an operation may end. -/
def Ends (C : Contract V K W) (f : Option Operation) (post : α → Debt → Table V → Prop) :
    EStateM.Result Panic (Running V W) α → Prop
  | .ok a s => ∃ d t, s.table = t.fencedBy f ∧ C.inv d t s.world ∧ t.chains.WellFormed ∧ post a d t
  | .error p s => ∃ t, s.table = t.fencedBy f ∧ C.inv 0 t s.world ∧ t.chains.WellFormed
      ∧ C.panics p

/-- From table `t` under fence `f`, with debt `d`, the operation ends with `post` or panics, and
keeps the contract. -/
def Keeps (C : Contract V K W) (f : Option Operation) (d : Debt) (t : Table V) (op : Op W V α)
    (post : α → Debt → Table V → Prop) : Prop :=
  ∀ w, C.inv d t w → t.chains.WellFormed → C.Ends f post (op ⟨t.fencedBy f, w⟩)

/-- While the table is `t`, and with debt `d`, an act on the world ends with `post` or panics, and
keeps the contract. -/
def Uses (C : Contract V K W) (d : Debt) (t : Table V) (act : EStateM Panic W α)
    (post : α → Debt → Prop) : Prop :=
  ∀ w, C.inv d t w → match act w with
    | .ok a w => ∃ d', C.inv d' t w ∧ post a d'
    | .error p w => C.inv 0 t w ∧ C.panics p

namespace Uses

variable {post : β → Debt → Prop}

theorem pure {a : β} (h : post a d) : C.Uses d t (Pure.pure a) post :=
  fun _ hinv => ⟨d, hinv, h⟩

theorem bind {act : EStateM Panic W α} {g : α → EStateM Panic W β} {mid : α → Debt → Prop}
    (hact : C.Uses d t act mid) (hg : ∀ a d', mid a d' → C.Uses d' t (g a) post) :
    C.Uses d t (act >>= g) post := by
  intro w hinv
  have huses := hact w hinv
  show match EStateM.bind act g w with
    | .ok a w => ∃ d', C.inv d' t w ∧ post a d'
    | .error p w => C.inv 0 t w ∧ C.panics p
  rw [EStateM.bind]
  cases hrun : act w with
  | ok a w' =>
      rw [hrun] at huses
      obtain ⟨d', hinv', hmid⟩ := huses
      exact hg a d' hmid w' hinv'
  | error p w' =>
      rw [hrun] at huses
      exact huses

theorem request (henv : C.Obeyed env) (b : Block) (n : Nat) :
    C.Uses d t (env.request b n) fun r d' => match r with
      | .ok () => d' = d.add b n
      | .error e => d' = d ∧ C.refuses e := by
  intro w hinv
  have hgrants := henv.allocate d t b n w hinv
  rw [Supply.request]
  rcases hrun : env.allocate b n w with ⟨e | u, w'⟩
  · rw [hrun] at hgrants
    exact ⟨d, hgrants.1, rfl, hgrants.2⟩
  · rw [hrun] at hgrants
    exact ⟨_, hgrants, rfl⟩

theorem reserveBytes (henv : C.Obeyed env) (bytes : Nat) :
    C.Uses d t (env.reserveBytes bytes) fun r d' =>
      d' = d ∧ (r = false → ∀ cause, C.refuses (.outOfMemory cause)) :=
  fun w hinv => ⟨d, henv.reserve d t bytes w hinv, rfl,
    fun hr cause => henv.unreserved bytes w cause hr⟩

theorem notice (henv : C.Obeyed env) (n : Notice) :
    C.Uses d t (env.notice n) fun _ d' => d' = d :=
  fun w hinv => ⟨d, henv.report d t n w hinv, rfl⟩

theorem deallocate (henv : C.Obeyed env) (b : Block) (n : Nat) :
    C.Uses (d.add b n) t (env.deallocate b n) fun _ d' => d' = d := by
  intro w hinv
  have hsettles := henv.deallocate d t b n w hinv
  cases hrun : env.deallocate b n w with
  | ok u w' =>
      rw [hrun] at hsettles
      exact ⟨d, hsettles.1, rfl⟩
  | error p w' =>
      rw [hrun] at hsettles
      exact hsettles

end Uses

theorem Ends.mono {post post' : α → Debt → Table V → Prop}
    {r : EStateM.Result Panic (Running V W) α} (h : C.Ends f post r)
    (himp : ∀ a d t, post a d t → post' a d t) : C.Ends f post' r := by
  cases r with
  | ok a s =>
      obtain ⟨d, t, htable, hinv, hwf, hpost⟩ := h
      exact ⟨d, t, htable, hinv, hwf, himp a d t hpost⟩
  | error p s => exact h

/-- Nothing is owed and the table is `t`, whatever else holds of the answer. -/
def still (t : Table V) (φ : α → Prop) : α → Debt → Table V → Prop :=
  fun a d t' => d = 0 ∧ t' = t ∧ φ a

/-- What becomes of a request for storage: `good`, or a refusal that owes nothing and leaves the
table as `left` says. -/
def OrRefused (C : Contract V K W) (left : Table V → Prop) (good : α → Debt → Table V → Prop) :
    Except AllocError α → Debt → Table V → Prop
  | .ok a => good a
  | .error e => fun d t => d = 0 ∧ left t ∧ C.refuses e

namespace Keeps

variable {post : β → Debt → Table V → Prop}

/-- Well-formed chains may be assumed of the table that an operation starts from. -/
theorem of_wellFormed {op : Op W V β} (h : t.chains.WellFormed → C.Keeps f d t op post) :
    C.Keeps f d t op post :=
  fun w hinv hwf => h hwf w hinv hwf

/-- The invariant may be assumed of the table that an operation starts from, in some world. -/
theorem of_inv {op : Op W V β} (h : ∀ w, C.inv d t w → C.Keeps f d t op post) :
    C.Keeps f d t op post :=
  fun w hinv => h w hinv w hinv

theorem mono {op : Op W V β} {post' : β → Debt → Table V → Prop} (h : C.Keeps f d t op post)
    (himp : ∀ a d t, post a d t → post' a d t) : C.Keeps f d t op post' :=
  fun w hinv hwf => (h w hinv hwf).mono himp

theorem pure {a : β} (h : post a d t) : C.Keeps f d t (Pure.pure a) post :=
  fun _ hinv hwf => ⟨d, t, rfl, hinv, hwf, h⟩

theorem bind {op : Op W V α} {g : α → Op W V β} {mid : α → Debt → Table V → Prop}
    (hop : C.Keeps f d t op mid)
    (hg : ∀ a d' t', mid a d' t' → C.Keeps f d' t' (g a) post) :
    C.Keeps f d t (op >>= g) post := by
  intro w hinv hwf
  have hends := hop w hinv hwf
  show C.Ends f post (EStateM.bind op g ⟨t.fencedBy f, w⟩)
  rw [EStateM.bind]
  cases hrun : op ⟨t.fencedBy f, w⟩ with
  | ok a s =>
      rw [hrun] at hends
      obtain ⟨d', t', htable, hinv', hwf', hmid⟩ := hends
      obtain ⟨table, world⟩ := s
      obtain rfl : table = t'.fencedBy f := htable
      exact hg a d' t' hmid world hinv' hwf'
  | error p s =>
      rw [hrun] at hends
      exact hends

theorem bindStill {op : Op W V α} {g : α → Op W V β} {φ : α → Prop}
    (hop : C.Keeps f 0 t op (still t φ)) (hg : ∀ a, φ a → C.Keeps f 0 t (g a) post) :
    C.Keeps f 0 t (op >>= g) post := by
  refine hop.bind ?_
  intro a d' t' hmid
  obtain ⟨rfl, rfl, hφ⟩ := hmid
  exact hg a hφ

theorem throw {p : Panic} (h : C.panics p) :
    C.Keeps f 0 t (MonadExceptOf.throw p : Op W V β) post :=
  fun _ hinv hwf => ⟨t, rfl, hinv, hwf, h⟩

theorem read {g : Table V → β} (h : post (g (t.fencedBy f)) d t) :
    C.Keeps f d t (Op.read g) post :=
  fun _ hinv hwf => ⟨d, t, rfl, hinv, hwf, h⟩

theorem query {q : Table V → Except Panic β} {a : β} (hq : q (t.fencedBy f) = .ok a)
    (h : post a d t) : C.Keeps f d t (Op.query q) post := by
  intro w hinv hwf
  rw [Op.query]
  simp only [hq]
  exact ⟨d, t, rfl, hinv, hwf, h⟩

theorem bindRead {h : Table V → α} {g : α → Op W V β}
    (hg : C.Keeps f d t (g (h (t.fencedBy f))) post) : C.Keeps f d t (Op.read h >>= g) post :=
  fun w hinv hwf => hg w hinv hwf

theorem bindQuery {q : Table V → Except Panic α} {g : α → Op W V β} {a : α}
    (hq : q (t.fencedBy f) = .ok a) (hg : C.Keeps f d t (g a) post) :
    C.Keeps f d t (Op.query q >>= g) post := by
  have hquery : C.Keeps f d t (Op.query q) fun b d' t' => b = a ∧ d' = d ∧ t' = t :=
    query hq ⟨rfl, rfl, rfl⟩
  refine hquery.bind ?_
  intro b d' t' hmid
  obtain ⟨rfl, rfl, rfl⟩ := hmid
  exact hg

theorem change {g : Table V → β × Table V} {a : β} {d' : Debt} {t' : Table V}
    (hg : g (t.fencedBy f) = (a, t'.fencedBy f)) (hwf' : t'.chains.WellFormed)
    (hstep : ∀ w, C.inv d t w → C.inv d' t' w) (h : post a d' t') :
    C.Keeps f d t (Op.change g) post := by
  intro w hinv hwf
  rw [Op.change]
  simp only [hg]
  exact ⟨d', t', rfl, hstep w hinv, hwf', h⟩

theorem bindChange {h : Table V → α × Table V} {g : α → Op W V β} {a : α} {d' : Debt}
    {t' : Table V} (hh : h (t.fencedBy f) = (a, t'.fencedBy f)) (hwf' : t'.chains.WellFormed)
    (hstep : ∀ w, C.inv d t w → C.inv d' t' w) (hg : C.Keeps f d' t' (g a) post) :
    C.Keeps f d t (Op.change h >>= g) post := by
  have hchange : C.Keeps f d t (Op.change h) fun b d'' t'' => b = a ∧ d'' = d' ∧ t'' = t' :=
    change hh hwf' hstep ⟨rfl, rfl, rfl⟩
  refine hchange.bind ?_
  intro b d'' t'' hmid
  obtain ⟨rfl, rfl, rfl⟩ := hmid
  exact hg

theorem update {g : Table V → Except Panic (β × Table V)} {a : β} {d' : Debt} {t' : Table V}
    (hg : g (t.fencedBy f) = .ok (a, t'.fencedBy f)) (hwf' : t'.chains.WellFormed)
    (hstep : ∀ w, C.inv d t w → C.inv d' t' w) (h : post a d' t') :
    C.Keeps f d t (Op.update g) post := by
  intro w hinv hwf
  rw [Op.update]
  simp only [hg]
  exact ⟨d', t', rfl, hstep w hinv, hwf', h⟩

theorem bindUpdate {h : Table V → Except Panic (α × Table V)} {g : α → Op W V β} {a : α}
    {d' : Debt} {t' : Table V} (hh : h (t.fencedBy f) = .ok (a, t'.fencedBy f))
    (hwf' : t'.chains.WellFormed) (hstep : ∀ w, C.inv d t w → C.inv d' t' w)
    (hg : C.Keeps f d' t' (g a) post) : C.Keeps f d t (Op.update h >>= g) post := by
  have hupdate : C.Keeps f d t (Op.update h) fun b d'' t'' => b = a ∧ d'' = d' ∧ t'' = t' :=
    update hh hwf' hstep ⟨rfl, rfl, rfl⟩
  refine hupdate.bind ?_
  intro b d'' t'' hmid
  obtain ⟨rfl, rfl, rfl⟩ := hmid
  exact hg

theorem world {act : EStateM Panic W β} {post : β → Debt → Prop} (hact : C.Uses d t act post) :
    C.Keeps f d t (Op.world act) fun a d' t' => t' = t ∧ post a d' := by
  intro w hinv hwf
  have huses := hact w hinv
  rw [Op.world]
  cases hrun : act w with
  | ok a w' =>
      rw [hrun] at huses
      obtain ⟨d', hinv', hpost⟩ := huses
      exact ⟨d', t, rfl, hinv', hwf, rfl, hpost⟩
  | error p w' =>
      rw [hrun] at huses
      exact ⟨t, rfl, huses.1, hwf, huses.2⟩

theorem bindWorld {act : EStateM Panic W α} {g : α → Op W V β} {mid : α → Debt → Prop}
    (hact : C.Uses d t act mid) (hg : ∀ a d', mid a d' → C.Keeps f d' t (g a) post) :
    C.Keeps f d t (Op.world act >>= g) post := by
  refine (world hact).bind ?_
  intro a d' t' hmid
  obtain ⟨rfl, ha⟩ := hmid
  exact hg a d' ha

/-- Foreign code runs only when there is no debt. -/
theorem call {act : Table V → EStateM Panic W β} {ok : β → Prop}
    (hact : ∀ w, C.inv 0 t w → C.Settles 0 t ok (act (t.fencedBy f) w))
    (h : ∀ a, ok a → post a 0 t) : C.Keeps f 0 t (Op.call act) post := by
  intro w hinv hwf
  have hsettles := hact w hinv
  rw [Op.call]
  cases hrun : act (t.fencedBy f) w with
  | ok a w' =>
      rw [hrun] at hsettles
      exact ⟨0, t, rfl, hsettles.1, hwf, h a hsettles.2⟩
  | error p w' =>
      rw [hrun] at hsettles
      exact ⟨t, rfl, hsettles.1, hwf, hsettles.2⟩

theorem fenced {op : Operation} {body : Op W V β} (h : C.Keeps (some op) d t body post) :
    C.Keeps none d t (Op.fenced op body) post := by
  intro w hinv hwf
  have hbody := h w hinv hwf
  rw [Op.fenced]
  show C.Ends none post (match body ⟨t.fencedBy (some op), w⟩ with
    | .ok a s => .ok a { s with table.fence := none }
    | .error p s => .error p { s with table.fence := none })
  cases hrun : body ⟨t.fencedBy (some op), w⟩ with
  | ok a s =>
      rw [hrun] at hbody
      obtain ⟨d', t', htable, hrest⟩ := hbody
      exact ⟨d', t', by rw [htable]; rfl, hrest⟩
  | error p s =>
      rw [hrun] at hbody
      obtain ⟨t', htable, hrest⟩ := hbody
      exact ⟨t', by rw [htable]; rfl, hrest⟩

theorem onPanic {body : Op W V β} {cleanup : Table V → W → W} (h : C.Keeps f d t body post)
    (hclean : ∀ t seen w, C.inv 0 t w → C.inv 0 t (cleanup seen w)) :
    C.Keeps f d t (body.onPanic cleanup) post := by
  intro w hinv hwf
  have hbody := h w hinv hwf
  rw [Op.onPanic]
  cases hrun : body ⟨t.fencedBy f, w⟩ with
  | ok a s =>
      rw [hrun] at hbody
      exact hbody
  | error p s =>
      rw [hrun] at hbody
      obtain ⟨t', htable, hinv', hrest⟩ := hbody
      exact ⟨t', htable, hclean t' _ _ hinv', hrest⟩

theorem infallible {op : Op W V (Except AllocError β)}
    {post : Except AllocError β → Debt → Table V → Prop} (h : C.Keeps f d t op post)
    (hrefused : ∀ e d' t', post (.error e) d' t' → d' = 0 ∧ C.panics (.allocationFailed e)) :
    C.Keeps f d t op.infallible fun a => post (.ok a) := by
  refine h.bind ?_
  intro r d' t' hr
  cases r with
  | ok a => exact pure hr
  | error e =>
      obtain ⟨rfl, hpanic⟩ := hrefused e d' t' hr
      exact throw hpanic

/-- Values that are held while an operation runs are disposed of when it panics. -/
theorem holding (henv : C.Obeyed env) (v : V) {body : Op W V β} (h : C.Keeps f d t body post) :
    C.Keeps f d t (env.holding v body) post :=
  h.onPanic fun t seen w hinv => henv.unwinding t seen v w hinv

theorem holdingAll (henv : C.Obeyed env) (vs : List V) {body : Op W V β}
    (h : C.Keeps f d t body post) : C.Keeps f d t (env.holdingAll vs body) post :=
  h.onPanic fun _ _ _ hinv => henv.unwindAll vs hinv

theorem disposeOp (henv : C.Obeyed env) (v : V) :
    C.Keeps f 0 t (env.disposeOp v) (still t fun _ => True) :=
  call (fun w hinv => henv.dispose t _ v w hinv) fun _ _ => ⟨rfl, rfl, trivial⟩

/-- What holds once an operation has answered. -/
theorem of_run_ok {op : Op W V β} (h : C.Keeps f d t op post) (hfence : t.fence = f)
    (hwf : t.chains.WellFormed) {w : W} (hinv : C.inv d t w) {b : β} {s : Running V W}
    (hrun : op ⟨t, w⟩ = .ok b s) :
    ∃ d' t', s.table = t'.fencedBy f ∧ C.inv d' t' s.world ∧ t'.chains.WellFormed
      ∧ post b d' t' := by
  have hends := h w hinv hwf
  rw [Table.fencedBy_eq hfence, hrun] at hends
  exact hends

/-- What holds once an operation has panicked. -/
theorem of_run_error {op : Op W V β} (h : C.Keeps f d t op post) (hfence : t.fence = f)
    (hwf : t.chains.WellFormed) {w : W} (hinv : C.inv d t w) {p : Panic} {s : Running V W}
    (hrun : op ⟨t, w⟩ = .error p s) :
    ∃ t', s.table = t'.fencedBy f ∧ C.inv 0 t' s.world ∧ t'.chains.WellFormed ∧ C.panics p := by
  have hends := h w hinv hwf
  rw [Table.fencedBy_eq hfence, hrun] at hends
  exact hends

end Keeps

end Contract

end SeparateChaining
