import SeparateChaining.Proofs.Denial
import SeparateChaining.Proofs.Keyed

/-!
# What commands do to bags

The abstract reading of a table is its bag, and `Command.Simulates`
says what each command does to it: which values it adds or takes, and
what it answers about them. Nothing is said there of chains, buckets or
growth. A command on a table that is `Steady` comes out so
(`Command.Comes`), unless it is refused storage or misused, and then
the bag stays. What the operations under a command leave is known from
their contracts; here it is once turned into what is left of the
command, for operations that cannot be refused (`comes_well`), for
those that report refusals (`comes_granted`) and for those that panic
on them (`comes_granted!`).
-/

namespace SeparateChaining

variable {V K W α : Type}

/-! ## What commands do to bags -/

namespace Command

/-- What became of `v`, offered to the bag of `t` and found in the table `t'` after that. -/
def Offered (p : Policies V K) (t t' : Table V) (v : V) : Placement V → Prop
  | .linked c => (∀ u ∈ t.bag, p.hasKey (p.extract v) u = false) ∧ t'.bag = v ::ₘ t.bag
      ∧ t'.get c = .ok v
  | .resident c rejected => rejected = v ∧ t'.bag = t.bag
      ∧ ∃ u ∈ t.bag, t'.get c = .ok u ∧ p.hasKey (p.extract v) u = true

/-- A command that answers `a` and makes `t'` of `t` does to the bag what it should. -/
def Simulates (p : Policies V K) (t t' : Table V) : Command V K → Answer V → Prop
  | insertNew v, .placement (.ok r) | insertNew! v, .placement (.ok r) => Offered p t t' v r
  | insertAny v, .position (.ok c) | insertAny! v, .position (.ok c) =>
    t'.bag = v ::ₘ t.bag ∧ t'.get c = .ok v
  | find q, .cursor c => t'.bag = t.bag ∧ (c.isEnd = true ↔ ∀ v ∈ t.bag, p.hasKey q v = false)
      ∧ (c.isEnd = false → ∃ v ∈ t.bag, t'.get c = .ok v ∧ p.hasKey q v = true)
  | contains q, .flag b => t'.bag = t.bag ∧ (b = true ↔ ∃ v ∈ t.bag, p.hasKey q v = true)
  | count q, .number n => t'.bag = t.bag ∧ n = t.bag.countP (p.hasKey q · = true)
  | range q, .cursors start stop => t'.bag = t.bag
      ∧ ∃ vs, t'.walk start stop = .ok vs ∧ ↑vs = t.bag.filter (p.hasKey q · = true)
  | iteratorOf q, .values vs => t'.bag = t.bag ∧ ↑vs = t.bag.filter (p.hasKey q · = true)
  | erase c, .cursor c' => (∃ v, t.get c = .ok v ∧ t.bag = v ::ₘ t'.bag) ∧ t.next c = .ok c'
  | remove c, .value v => t.get c = .ok v ∧ t.bag = v ::ₘ t'.bag
  | eraseRun q, .number n => t'.bag = t.bag.filter (p.hasKey q · = false)
      ∧ n = t.bag.countP (p.hasKey q · = true)
  | clear, .done => t'.bag = 0
  | modify c f, .done => ∃ v rest, t.get c = .ok v ∧ t.bag = v ::ₘ rest ∧ t'.bag = f v ::ₘ rest
  | get c, .value v => t'.bag = t.bag ∧ t.get c = .ok v ∧ v ∈ t.bag
  | next c, .cursor c' => t'.bag = t.bag ∧ t.next c = .ok c'
  | first, .cursor c => t'.bag = t.bag ∧ ∃ vs, t'.walk c t'.endCursor = .ok vs ∧ ↑vs = t.bag
  | past, .cursor c => t'.bag = t.bag ∧ c = t'.endCursor
  | iterate, .values vs => t'.bag = t.bag ∧ ↑vs = t.bag
  | rehash _, .room (.ok _) | rehash! _, .room (.ok _) => t'.bag = t.bag
  | reserve _, .room (.ok _) | reserve! _, .room (.ok _) => t'.bag = t.bag
  | homeBucket _, .number _ | bucketSize _, .number _ | check, .flag _ => t'.bag = t.bag
  | _, _ => False

/-- How a command reports that storage was refused, if it needs any. -/
def refusal? (e : AllocError) (s : Running V W) :
    Command V K → Option (EStateM.Result Panic (Running V W) (Answer V))
  | insertNew _ => some (.ok (.placement (.error e)) s)
  | insertAny _ => some (.ok (.position (.error e)) s)
  | rehash _ | reserve _ => some (.ok (.room (.error e)) s)
  | insertNew! _ | insertAny! _ | rehash! _ | reserve! _ => some (.error (.allocationFailed e) s)
  | _ => none

/-- A command is misused at a cursor that is not accepted, and for a bucket that is none. -/
def Misused (t : Table V) (cmd : Command V K) (p : Panic) : Prop :=
  (∃ c, cmd.target? = some c ∧ t.cell c = .error p)
    ∨ ∃ i, cmd = .bucketSize i ∧ t.bucketCount ≤ i ∧ p = .bucketOutOfRange t.bucketCount i

/-- How a command may come out that is run in the state `s`. -/
inductive Outcome (p : Policies V K) (env : Environment V K W) (s : Running V W)
    (cmd : Command V K) : EStateM.Result Panic (Running V W) (Answer V) → Prop
  | done {a : Answer V} {s' : Running V W} (simulates : cmd.Simulates p s.table s'.table a) :
      Outcome p env s cmd (.ok a s')
  | refused {e : AllocError} {s' : Running V W}
      {r : EStateM.Result Panic (Running V W) (Answer V)} (report : cmd.refusal? e s' = some r)
      (why : cmd.Denied env s.world s.table e) (bag : s'.table.bag = s.table.bag) :
      Outcome p env s cmd r
  | misused {panic : Panic} {s' : Running V W} (why : cmd.Misused s.table panic)
      (same : s'.table = s.table) : Outcome p env s cmd (.error panic s')

/-- Replacing a value does not change its key. -/
def KeepsKeys (p : Policies V K) (t : Table V) : Command V K → Prop
  | modify c f => ∀ v, t.get c = .ok v → p.hasKey (p.extract v) (f v) = true
  | _ => True

/-- What is left when a command has ended, panic or not. -/
def step (env : Environment V K W) (s : Running V W) (cmd : Command V K) : Running V W :=
  match cmd.run env s with
  | .ok _ s' | .error _ s' => s'

/-- What commands leave, one after the other. -/
def after (env : Environment V K W) (cmds : List (Command V K)) (s : Running V W) :
    Running V W :=
  cmds.foldl (step env) s

/-- Along a run no key is changed. -/
def KeysKept (env : Environment V K W) (p : Policies V K) :
    List (Command V K) → Running V W → Prop
  | [], _ => True
  | cmd :: cmds, s => cmd.KeepsKeys p s.table ∧ KeysKept env p cmds (step env s cmd)

end Command

/-! ## One command -/

/-- A sound and keyed table whose storage is granted. -/
structure Steady (p : Policies V K) (held : W → Debt → Prop) (s : Running V W) : Prop where
  sound : s.table.Sound
  keyed : s.table.Keyed p
  held : held s.world (Table.live 0 s.table 0)

namespace Command

variable {p : Policies V K} {env : Environment V K W} {held : W → Debt → Prop}
  {s : Running V W} {cmd : Command V K}

open Contract Table

/-- A command comes out as it should, and again leaves a table that is steady. -/
def Comes (p : Policies V K) (env : Environment V K W) (held : W → Debt → Prop) (s : Running V W)
    (cmd : Command V K) : Prop :=
  cmd.Outcome p env s (cmd.run env s)
    ∧ (cmd.KeepsKeys p s.table → Steady p held (step env s cmd))

theorem comes_of_run {r : EStateM.Result Panic (Running V W) (Answer V)} {s' : Running V W}
    (hrun : cmd.run env s = r) (hleft : (∃ a, r = .ok a s') ∨ ∃ q, r = .error q s')
    (hout : cmd.Outcome p env s r)
    (hsteady : cmd.KeepsKeys p s.table → Steady p held s') : cmd.Comes p env held s := by
  refine ⟨by rw [hrun]; exact hout, fun hkeys => ?_⟩
  have hstep : step env s cmd = s' := by
    rw [step, hrun]
    rcases hleft with ⟨a, rfl⟩ | ⟨q, rfl⟩
    · rfl
    · rfl
  rw [hstep]
  exact hsteady hkeys

/-- What an operation has to leave for its command to come out well: it answers `a`, owes nothing
and keeps the table keyed. -/
def Well (p : Policies V K) (t : Table V) (cmd : Command V K) (a : Answer V) (d : Debt)
    (t' : Table V) : Prop :=
  d = 0 ∧ cmd.Simulates p t t' a ∧ (cmd.KeepsKeys p t → t'.Keyed p)

/-- What a refused operation has to leave. -/
def Refused (p : Policies V K) (t : Table V) (d : Debt) (t' : Table V) : Prop :=
  d = 0 ∧ t'.bag = t.bag ∧ t'.Keyed p

theorem comes_well (hs : Steady p held s) {op : Op W V α} {post : α → Debt → Table V → Prop}
    (hop : (exact p held).Keeps none 0 s.table op post) {g : α → Answer V}
    (hrun : cmd.run env = do return g (← op))
    (hpost : ∀ a d t', t'.Sound → post a d t' → Well p s.table cmd (g a) d t') :
    cmd.Comes p env held s := by
  obtain ⟨a, t', w', d, hop, hsound, hheld, ha⟩ := exact_ends hop hs.sound hs.held
  obtain ⟨rfl, hsim, hkeyed⟩ := hpost a d t' hsound ha
  have hres : cmd.run env s = .ok (g a) ⟨t', w'⟩ := by
    rw [hrun]
    exact Op.run_bind_ok hop
  exact comes_of_run hres (Or.inl ⟨_, rfl⟩) (.done hsim) fun hkeys => ⟨hsound, hkeyed hkeys, hheld⟩

/-- An operation that reports refusals. -/
theorem comes_granted (hs : Steady p held s) {op : Op W V (Except AllocError α)}
    {post : Except AllocError α → Debt → Table V → Prop}
    (hop : (exact p held).Keeps none 0 s.table op post) {g : Except AllocError α → Answer V}
    (hrun : cmd.run env = do return g (← op))
    (hreport : ∀ e (s' : Running V W), cmd.refusal? e s' = some (.ok (g (.error e)) s'))
    (hwhy : ∀ e s', op s = .ok (.error e) s' → cmd.Denied env s.world s.table e)
    (hok : ∀ a d t', t'.Sound → post (.ok a) d t' → Well p s.table cmd (g (.ok a)) d t')
    (herror : ∀ e d t', post (.error e) d t' → Refused p s.table d t') :
    cmd.Comes p env held s := by
  obtain ⟨r, t', w', d, hop, hsound, hheld, hr⟩ := exact_ends hop hs.sound hs.held
  have hres : cmd.run env s = .ok (g r) ⟨t', w'⟩ := by
    rw [hrun]
    exact Op.run_bind_ok hop
  cases r with
  | ok a =>
      obtain ⟨rfl, hsim, hkeyed⟩ := hok a d t' hsound hr
      exact comes_of_run hres (Or.inl ⟨_, rfl⟩) (.done hsim)
        fun hkeys => ⟨hsound, hkeyed hkeys, hheld⟩
  | error e =>
      obtain ⟨rfl, hbag, hkeyed⟩ := herror e d t' hr
      exact comes_of_run hres (Or.inl ⟨_, rfl⟩) (.refused (hreport e ⟨t', w'⟩) (hwhy e _ hop) hbag)
        fun _ => ⟨hsound, hkeyed, hheld⟩

/-- The same operation where a refusal is a panic. -/
theorem comes_granted! (hs : Steady p held s) {op : Op W V (Except AllocError α)}
    {post : Except AllocError α → Debt → Table V → Prop}
    (hop : (exact p held).Keeps none 0 s.table op post) {g : α → Answer V}
    (hrun : cmd.run env = do return g (← op.infallible))
    (hreport : ∀ e (s' : Running V W), cmd.refusal? e s' = some (.error (.allocationFailed e) s'))
    (hwhy : ∀ e s', op s = .ok (.error e) s' → cmd.Denied env s.world s.table e)
    (hok : ∀ a d t', t'.Sound → post (.ok a) d t' → Well p s.table cmd (g a) d t')
    (herror : ∀ e d t', post (.error e) d t' → Refused p s.table d t') :
    cmd.Comes p env held s := by
  obtain ⟨r, t', w', d, hop, hsound, hheld, hr⟩ := exact_ends hop hs.sound hs.held
  cases r with
  | ok a =>
      obtain ⟨rfl, hsim, hkeyed⟩ := hok a d t' hsound hr
      have hres : cmd.run env s = .ok (g a) ⟨t', w'⟩ := by
        rw [hrun]
        exact Op.run_bind_ok (Op.run_infallible_ok hop)
      exact comes_of_run hres (Or.inl ⟨_, rfl⟩) (.done hsim)
        fun hkeys => ⟨hsound, hkeyed hkeys, hheld⟩
  | error e =>
      obtain ⟨rfl, hbag, hkeyed⟩ := herror e d t' hr
      have hres : cmd.run env s = .error (.allocationFailed e) ⟨t', w'⟩ := by
        rw [hrun]
        exact Op.run_bind_error (Op.run_infallible_error hop) _
      exact comes_of_run hres (Or.inr ⟨_, rfl⟩) (.refused (hreport e ⟨t', w'⟩) (hwhy e _ hop) hbag)
        fun _ => ⟨hsound, hkeyed, hheld⟩

/-- At a cursor that is not accepted nothing happens. -/
theorem comes_at (hs : Steady p held s) {c : Cursor} (htarget : cmd.target? = some c)
    (hok : ∀ k n, s.table.cell c = .ok (k, n) → cmd.Comes p env held s) :
    cmd.Comes p env held s := by
  cases hcell : s.table.cell c with
  | ok cell => exact hok cell.1 cell.2 hcell
  | error q =>
      exact comes_of_run (run_of_cell_error htarget hcell) (Or.inr ⟨_, rfl⟩)
        (.misused (Or.inl ⟨c, htarget, hcell⟩) rfl) fun _ => hs

theorem comes_still (hs : Steady p held s) {op : Op W V α} {φ : α → Prop}
    (hop : (exact p held).Keeps none 0 s.table op (still s.table φ)) {g : α → Answer V}
    (hrun : cmd.run env = do return g (← op))
    (hsim : ∀ a, φ a → cmd.Simulates p s.table s.table (g a)) : cmd.Comes p env held s := by
  refine comes_well hs hop hrun ?_
  intro a d t' _ ha
  obtain ⟨rfl, rfl, ha⟩ := ha
  exact ⟨rfl, hsim a ha, fun _ => hs.keyed⟩

theorem comes_same (hs : Steady p held s) {a : Answer V} (hrun : cmd.run env s = .ok a s)
    (hsim : cmd.Simulates p s.table s.table a) : cmd.Comes p env held s :=
  comes_of_run hrun (Or.inl ⟨_, rfl⟩) (.done hsim) fun _ => hs

end Command

end SeparateChaining
