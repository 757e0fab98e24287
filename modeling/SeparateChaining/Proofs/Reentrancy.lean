import SeparateChaining.Proofs.Record.Trace

/-!
# Calling back

Policies may hold on to the table that calls them and call it in turn.
They only ever see it with its fence up, in the name of the operation
that calls them, so a lookup that they attempt panics before anything
else happens (`Command.run_of_fence`). That is all a policy can learn of
it: one that catches the panic and goes on as it would have without the
attempt (`Detour`) cannot be told from one that makes no attempt, since
operations do the same under environments that do the same wherever the
fence is up (`Environment.Alike.run`). A policy that does not catch the
panic ends the operation with it. The table is then as it was, or has
the room that an insertion made before it looked up. However an
operation ends, the fence is down after it (`Store.fence_after`).
-/

namespace SeparateChaining

variable {V K W α β : Type}

/-! ## Lookups on a table with its fence up -/

namespace Command

/-- Whether a command only asks of the table what a policy may ask of it too. -/
def isLookup : Command V K → Bool
  | find _ | contains _ | count _ | range _ | iteratorOf _ | homeBucket _ | check => true
  | _ => false

/-- With the fence up no lookup gets anywhere. To find out whether an element is there is to find
it, and goes by that name. -/
theorem run_of_fence {cmd : Command V K} (hlookup : cmd.isLookup = true) {attempted : Operation}
    (hname : cmd.consulting? = some attempted) {seen : Table V} {running : Operation}
    (hfence : seen.fence = some running) (env : Environment V K W) (w : W) :
    cmd.run env ⟨seen, w⟩ = .error (.reentrant attempted running) ⟨seen, w⟩ := by
  have hfenced : ∀ {γ : Type} (body : Op W V γ),
      Op.fenced attempted body ⟨seen, w⟩ = .error (.reentrant attempted running) ⟨seen, w⟩ := by
    intro γ body
    rw [Op.fenced]
    simp only [hfence]
  cases cmd with
  | find q =>
      cases hname
      exact Op.run_bind_error (hfenced _) _
  | contains q =>
      cases hname
      exact Op.run_bind_error (Op.run_bind_error (hfenced _) _) _
  | count q =>
      cases hname
      exact Op.run_bind_error (hfenced _) _
  | range q =>
      cases hname
      exact Op.run_bind_error (hfenced _) _
  | iteratorOf q =>
      cases hname
      exact Op.run_bind_error (hfenced _) _
  | homeBucket q =>
      cases hname
      exact Op.run_bind_error (hfenced _) _
  | check =>
      cases hname
      exact Op.run_bind_error (hfenced _) _
  | _ => cases hlookup

theorem exists_consulting {cmd : Command V K} (hlookup : cmd.isLookup = true) :
    ∃ attempted, cmd.consulting? = some attempted := by
  cases cmd with
  | find | contains | count | range | iteratorOf | homeBucket | check => exact ⟨_, rfl⟩
  | _ => cases hlookup

end Command

/-! ## Policies that call back -/

/-- Carries out a command on the table that is seen, and catches its panic. -/
def attempt (env : Environment V K W) (cmd : Command V K) (seen : Table V) :
    EStateM Panic W (Except Panic (Answer V)) := fun w =>
  match cmd.run env ⟨seen, w⟩ with
  | .ok a s => .ok (.ok a) s.world
  | .error p s => .ok (.error p) s.world

/-- An act that does what another does but that, at any points of it, attempts lookups on the table
that it sees. When it has caught the panic that calling back raises, it goes on as the other. -/
inductive Detour (seen : Table V) : EStateM Panic W α → EStateM Panic W α → Prop
  | same (act : EStateM Panic W α) : Detour seen act act
  | attempt {K : Type} {env : Environment V K W} {cmd : Command V K} {act : EStateM Panic W α}
      {g : Except Panic (Answer V) → EStateM Panic W α} (lookup : cmd.isLookup = true)
      (caught : ∀ attempted running, Detour seen (g (.error (.reentrant attempted running))) act) :
      Detour seen (attempt env cmd seen >>= g) act
  | step {β : Type} {act : EStateM Panic W β} {g g' : β → EStateM Panic W α}
      (rest : ∀ b, Detour seen (g' b) (g b)) : Detour seen (act >>= g') (act >>= g)

/-- With the fence up, a detour makes no difference. -/
theorem Detour.eq {seen : Table V} {running : Operation} (hfence : seen.fence = some running)
    {act act' : EStateM Panic W α} (h : Detour seen act' act) : act' = act := by
  induction h with
  | same act => rfl
  | @attempt K env cmd act g lookup caught ih =>
      obtain ⟨attempted, hname⟩ := Command.exists_consulting lookup
      rw [← ih attempted running]
      funext w
      show EStateM.bind (SeparateChaining.attempt env cmd seen) g w = _
      rw [EStateM.bind, SeparateChaining.attempt,
        Command.run_of_fence lookup hname hfence env w]
  | step rest ih => rw [funext ih]

/-! ## Environments that do the same wherever the fence is up -/

/-- The policies of `env'` do what those of `env` do on tables with the fence up, and nothing else
of it differs. -/
structure Environment.Alike (env env' : Environment V K W) : Prop where
  extract : ∀ seen op v, seen.fence = some op → env'.extract seen v = env.extract seen v
  hash : ∀ seen op k, seen.fence = some op → env'.hash seen k = env.hash seen k
  keyEq : ∀ seen op a b, seen.fence = some op → env'.keyEq seen a b = env.keyEq seen a b
  copy : env'.copy = env.copy
  dispose : env'.dispose = env.dispose
  unwinding : env'.disposeUnwinding = env.disposeUnwinding
  supply : env'.toSupply = env.toSupply

/-- The operations do the same wherever the fence is up, and there they leave the table. -/
def Alike (op op' : Op W V α) : Prop :=
  ∀ t f w, t.fence = some f → op' ⟨t, w⟩ = op ⟨t, w⟩ ∧ Op.Leaves t (op ⟨t, w⟩)

namespace Alike

theorem of_leaves {op : Op W V α} (h : ∀ s, Op.Leaves s.table (op s)) : Alike op op :=
  fun _ _ _ _ => ⟨rfl, h _⟩

theorem pure (a : α) : Alike (Pure.pure a : Op W V α) (Pure.pure a) := of_leaves fun _ => rfl

theorem read (f : Table V → α) : Alike (Op.read f : Op W V α) (Op.read f) := of_leaves fun _ => rfl

theorem query (f : Table V → Except Panic α) : Alike (Op.query f : Op W V α) (Op.query f) :=
  of_leaves fun _ => Op.leaves_query _ _

theorem bind {op op' : Op W V α} {g g' : α → Op W V β} (hop : Alike op op')
    (hg : ∀ a, Alike (g a) (g' a)) : Alike (op >>= g) (op' >>= g') := by
  intro t f w hf
  obtain ⟨hsame, hleaves⟩ := hop t f w hf
  refine ⟨?_, hleaves.bind fun a w => (hg a t f w hf).2⟩
  rw [Op.run_bind_congr hsame]
  exact hleaves.bind_congr fun a w => (hg a t f w hf).1

theorem call {act act' : Table V → EStateM Panic W α}
    (h : ∀ seen op, seen.fence = some op → act' seen = act seen) :
    Alike (Op.call act) (Op.call act') := by
  intro t f w hf
  refine ⟨?_, Op.leaves_call act _⟩
  rw [Op.call, Op.call, h t f hf]

/-- With the fence put up around them they do the same everywhere. -/
theorem fenced {body body' : Op W V α} (h : Alike body body') (op : Operation) :
    Op.fenced op body' = Op.fenced op body := by
  funext ⟨t, w⟩
  rw [Op.fenced, Op.fenced]
  cases t.fence with
  | some running => rfl
  | none =>
      simp only
      rw [(h { t with fence := some op } op w rfl).1]

end Alike

namespace Environment.Alike

variable {env env' : Environment V K W}

open Table

theorem extractOp (h : env.Alike env') (v : V) :
    SeparateChaining.Alike (env.extractOp v) (env'.extractOp v) :=
  .call fun seen op hf => h.extract seen op v hf

theorem hashOp (h : env.Alike env') (k : K) :
    SeparateChaining.Alike (V := V) (env.hashOp k) (env'.hashOp k) :=
  .call fun seen op hf => h.hash seen op k hf

theorem keyEqOp (h : env.Alike env') (a b : K) :
    SeparateChaining.Alike (V := V) (env.keyEqOp a b) (env'.keyEqOp a b) :=
  .call fun seen op hf => h.keyEq seen op a b hf

theorem nodeMatches (h : env.Alike env') (hash : UInt64) (q : K) (n : Node V) :
    SeparateChaining.Alike (nodeMatches env hash q n) (Table.nodeMatches env' hash q n) := by
  unfold Table.nodeMatches
  split
  · exact (h.extractOp _).bind fun k => h.keyEqOp k q
  · exact .pure _

theorem seek (h : env.Alike env') (hash : UInt64) (q : K) (cells : List (Cell V)) :
    SeparateChaining.Alike (forIn cells none (seekAt env hash q))
      (forIn cells none (seekAt env' hash q)) := by
  induction cells with
  | nil => exact .pure _
  | cons cell cells ih =>
      rw [List.forIn_cons, List.forIn_cons]
      unfold seekAt
      rw [bind_assoc, bind_assoc]
      refine (h.nodeMatches hash q cell.2).bind fun b => ?_
      cases b with
      | true => exact .pure _
      | false => exact ih

theorem search (h : env.Alike env') (q : K) :
    SeparateChaining.Alike (search env q) (Table.search env' q) := by
  refine (h.hashOp q).bind fun hash => (Alike.query _).bind fun i => (Alike.read _).bind fun c => ?_
  rw [Chains.forFrom_eq_forIn, Chains.forFrom_eq_forIn]
  exact (h.seek hash q _).bind fun k => .pure _

theorem extend (h : env.Alike env') (hash : UInt64) (q : K) (cells : List (Cell V)) (r : Run) :
    SeparateChaining.Alike (forIn cells r (extendRun env hash q))
      (forIn cells r (extendRun env' hash q)) := by
  induction cells generalizing r with
  | nil => exact .pure _
  | cons cell cells ih =>
      rw [List.forIn_cons, List.forIn_cons]
      unfold extendRun
      rw [bind_assoc, bind_assoc]
      refine (h.nodeMatches hash q cell.2).bind fun b => ?_
      cases b with
      | true => exact ih _
      | false => exact .pure _

theorem runOf (h : env.Alike env') (q : K) :
    SeparateChaining.Alike (runOf env q) (Table.runOf env' q) := by
  refine (h.search q).bind fun r => ?_
  obtain ⟨hash, k | k⟩ := r
  · exact .pure _
  · refine (Alike.read _).bind fun c => ?_
    rw [Chains.forFrom_eq_forIn, Chains.forFrom_eq_forIn]
    exact (h.extend hash q _ _).bind fun r => .pure _

theorem hashesCurrent (h : env.Alike env') (cells : List (Cell V)) :
    SeparateChaining.Alike (hashesCurrent env cells) (Table.hashesCurrent env' cells) := by
  induction cells with
  | nil => exact .pure _
  | cons cell cells ih =>
      refine (h.extractOp _).bind fun k => (h.hashOp k).bind fun hash => ?_
      split
      · exact ih
      · exact .pure _

theorem equalComeFirst (h : env.Alike env') (k : K) (left : Bool) (vs : List V) :
    SeparateChaining.Alike (equalComeFirst env k left vs)
      (Table.equalComeFirst env' k left vs) := by
  induction vs generalizing left with
  | nil => exact .pure _
  | cons v vs ih =>
      refine (h.extractOp v).bind fun k' => (h.keyEqOp k k').bind fun same => ?_
      split
      · exact .pure _
      · exact ih _

theorem runsContiguous (h : env.Alike env') (vs : List V) :
    SeparateChaining.Alike (runsContiguous env vs) (Table.runsContiguous env' vs) := by
  induction vs with
  | nil => exact .pure _
  | cons v vs ih =>
      refine (h.extractOp v).bind fun k => (h.equalComeFirst k false vs).bind fun first => ?_
      split
      · exact ih
      · exact .pure _

theorem allChains {p p' : List (Cell V) → Op W V Bool}
    (hp : ∀ cells, SeparateChaining.Alike (p cells) (p' cells)) (is : List Nat) :
    SeparateChaining.Alike (allChains p is) (Table.allChains p' is) := by
  induction is with
  | nil => exact .pure _
  | cons i is ih =>
      refine (Alike.read _).bind fun cells => (hp cells).bind fun ok => ?_
      split
      · exact ih
      · exact .pure _

theorem eq (h : env.Alike env') :
    env' = { env with extract := env'.extract, hash := env'.hash, keyEq := env'.keyEq } := by
  obtain ⟨-, -, -, hcopy, hdispose, hunwinding, hsupply⟩ := h
  rw [← hcopy, ← hdispose, ← hunwinding, ← hsupply]

theorem seekHeld (h : env.Alike env') (op : Operation) (value : V) :
    Table.seekHeld env' op value = seekHeld env op value := by
  have hbody : Op.fenced op (do Table.search env' (← env'.extractOp value))
      = Op.fenced op (do Table.search env (← env.extractOp value)) :=
    ((h.extractOp value).bind fun k => h.search k).fenced op
  rw [Table.seekHeld, Table.seekHeld, hbody, h.eq]
  rfl

theorem seekOffered (h : env.Alike env') (op : Operation) (value : V) :
    Table.seekOffered env' op value = seekOffered env op value := by
  funext r
  cases r with
  | error e =>
      rw [h.eq]
      rfl
  | ok u => rw [Table.seekOffered, Table.seekOffered, h.seekHeld]

theorem prepare (h : env.Alike env') (op : Operation) (value : V) :
    Table.prepare env' op value = prepare env op value := by
  rw [prepare_eq, prepare_eq, h.seekOffered, h.eq]
  rfl

theorem insertNew (h : env.Alike env') (value : V) :
    Table.insertNew env' value = insertNew env value := by
  rw [insertNew_eq, insertNew_eq, h.prepare, h.eq]
  rfl

theorem insertAny (h : env.Alike env') (value : V) :
    Table.insertAny env' value = insertAny env value := by
  rw [insertAny_eq, insertAny_eq, h.prepare, h.eq]
  rfl

theorem find (h : env.Alike env') (q : K) : Table.find env' q = find env q :=
  ((h.search q).bind fun _ => .read _).fenced .find

theorem count (h : env.Alike env') (q : K) :
    (Table.count env' q : Op W V Nat) = count env q :=
  ((h.runOf q).bind fun _ => .pure _).fenced .count

theorem range (h : env.Alike env') (q : K) : Table.range env' q = range env q := by
  refine ((h.runOf q).bind fun r => ?_).fenced .range
  cases r with
  | none => exact .read _
  | some r => exact .read _

theorem iteratorOf (h : env.Alike env') (q : K) : Table.iteratorOf env' q = iteratorOf env q := by
  refine ((h.runOf q).bind fun r => ?_).fenced .iteratorOf
  cases r with
  | none => exact .read _
  | some r => exact .read _

theorem homeBucket (h : env.Alike env') (q : K) : Table.homeBucket env' q = homeBucket env q :=
  ((h.hashOp q).bind fun _ => .query _).fenced .homeBucket

theorem check (h : env.Alike env') : Table.check env' = check env := by
  refine ((Alike.read _).bind fun buckets => (Alike.read _).bind fun sound => ?_).fenced .check
  split
  · exact .pure _
  · refine (allChains h.hashesCurrent _).bind fun current => ?_
    split
    · exact .pure _
    · exact allChains (fun cells => h.runsContiguous _) _

theorem eraseAlong (h : env.Alike env') (n : Nat) (l : Link) :
    (Table.eraseAlong env' n l : Op W V Unit) = Table.eraseAlong env n l := by
  induction n generalizing l with
  | zero => rfl
  | succ n ih =>
      cases l with
      | none => rfl
      | some k =>
          rw [Table.eraseAlong, Table.eraseAlong]
          simp only [ih]
          rw [h.eq]
          rfl

theorem clearChain (h : env.Alike env') (i : Nat) (cells : List (Cell V)) :
    Table.clearChain env' i cells = Table.clearChain env i cells := by
  induction cells with
  | nil => rfl
  | cons cell cells ih =>
      rw [Table.clearChain, Table.clearChain, ih, h.eq]
      rfl

theorem clearBuckets (h : env.Alike env') (is : List Nat) :
    (Table.clearBuckets env' is : Op W V Unit) = Table.clearBuckets env is := by
  induction is with
  | nil => rfl
  | cons i is ih =>
      rw [Table.clearBuckets, Table.clearBuckets, ih]
      simp only [h.clearChain]

theorem clear (h : env.Alike env') : (Table.clear env' : Op W V Unit) = Table.clear env := by
  rw [Table.clear]
  simp only [h.clearBuckets]
  rw [h.eq]
  rfl

theorem eraseRun (h : env.Alike env') (q : K) : Table.eraseRun env' q = eraseRun env q := by
  rw [Table.eraseRun, (h.runOf q).fenced]
  simp only [h.eraseAlong]
  rfl

/-- Every command is the same. -/
theorem run (h : env.Alike env') (cmd : Command V K) : cmd.run env' = cmd.run env := by
  cases cmd with
  | insertNew value => rw [Command.run, Command.run, h.insertNew]
  | insertNew! value => rw [Command.run, Command.run, Table.insertNew!, h.insertNew]; rfl
  | insertAny value => rw [Command.run, Command.run, h.insertAny]
  | insertAny! value => rw [Command.run, Command.run, Table.insertAny!, h.insertAny]; rfl
  | find q => rw [Command.run, Command.run, h.find]
  | contains q => rw [Command.run, Command.run, Table.contains, h.find]; rfl
  | count q => rw [Command.run, Command.run, h.count]
  | range q => rw [Command.run, Command.run, h.range]
  | iteratorOf q => rw [Command.run, Command.run, h.iteratorOf]
  | homeBucket q => rw [Command.run, Command.run, h.homeBucket]
  | check => rw [Command.run, Command.run, h.check]
  | eraseRun q => rw [Command.run, Command.run, h.eraseRun]
  | clear => rw [Command.run, Command.run, h.clear]
  | _ =>
      rw [h.eq]
      rfl

theorem copyAll (h : env.Alike env') (made vs : List V) :
    Table.copyAll env' made vs = Table.copyAll env made vs := by
  induction vs generalizing made with
  | nil => rfl
  | cons v vs ih =>
      rw [Table.copyAll, Table.copyAll]
      simp only [ih]
      rw [h.eq]
      rfl

theorem disposeAll (h : env.Alike env') (vs : List V) :
    env'.disposeAll vs = env.disposeAll vs := by
  induction vs with
  | nil => rfl
  | cons v vs ih =>
      rw [Environment.disposeAll, Environment.disposeAll, ih, h.eq]
      rfl

theorem copyTable (h : env.Alike env') (id : Nat) : Table.copy env' id = Table.copy env id := by
  rw [Table.copy, Table.copy]
  simp only [h.copyAll, h.disposeAll]
  rw [h.eq]
  rfl

theorem releaseNodes (h : env.Alike env') (ks : List ArenaKey) :
    Table.releaseNodes env' ks = Table.releaseNodes env ks := by
  induction ks with
  | nil => rfl
  | cons k ks ih =>
      rw [Table.releaseNodes, Table.releaseNodes, ih, h.eq]
      rfl

theorem release (h : env.Alike env') : Table.release env' = Table.release env := by
  rw [Table.release, Table.release]
  simp only [h.releaseNodes]
  rw [h.eq]
  rfl

/-- Every action is the same. -/
theorem perform (h : env.Alike env') (a : Action V K) :
    Store.perform env' a = Store.perform env a := by
  cases a with
  | create capacity => rw [Store.perform, Store.perform, h.supply]
  | copy i =>
      funext s
      cases hi : s.table? i with
      | none => rw [Store.perform_copy_none hi, Store.perform_copy_none hi]
      | some t => rw [Store.perform_copy hi, Store.perform_copy hi, h.copyTable]
  | drop i =>
      funext s
      cases hi : s.table? i with
      | none => rw [Store.perform_drop_none hi, Store.perform_drop_none hi]
      | some t => rw [Store.perform_drop hi, Store.perform_drop hi, h.release]
  | on i cmd => rw [Store.perform, Store.perform, h.run]

/-- What is heard of their policies is the same too. -/
theorem heard (h : env.Alike env') : env.heard.Alike env'.heard where
  extract seen op v hf :=
    congrArg (overheard fun r => Heard.mk seen (.extract v r)) (h.extract seen op v hf)
  hash seen op k hf :=
    congrArg (overheard fun r => Heard.mk seen (.hash k r)) (h.hash seen op k hf)
  keyEq seen op a b hf :=
    congrArg (overheard fun r => Heard.mk seen (.keyEq a b r)) (h.keyEq seen op a b hf)
  copy := by rw [h.eq]; rfl
  dispose := by rw [h.eq]; rfl
  unwinding := by rw [h.eq]; rfl
  supply := by rw [h.eq]; rfl

end Environment.Alike

/-! ## Actions under policies that call back -/

/-- The policies of `env'` are detours of those of `env`, and nothing else of it differs. -/
structure Environment.Detoured (env env' : Environment V K W) : Prop where
  extract : ∀ seen v, Detour seen (env'.extract seen v) (env.extract seen v)
  hash : ∀ seen k, Detour seen (env'.hash seen k) (env.hash seen k)
  keyEq : ∀ seen a b, Detour seen (env'.keyEq seen a b) (env.keyEq seen a b)
  copy : env'.copy = env.copy
  dispose : env'.dispose = env.dispose
  unwinding : env'.disposeUnwinding = env.disposeUnwinding
  supply : env'.toSupply = env.toSupply

theorem Environment.Detoured.alike {env env' : Environment V K W} (h : env.Detoured env') :
    env.Alike env' where
  extract seen _ v hf := (h.extract seen v).eq hf
  hash seen _ k hf := (h.hash seen k).eq hf
  keyEq seen _ a b hf := (h.keyEq seen a b).eq hf
  copy := h.copy
  dispose := h.dispose
  unwinding := h.unwinding
  supply := h.supply

/-- A key equality that looks up the key it is given, on the table that asks it, before it
answers. -/
example (env inner : Environment V K W) (seen : Table V) (a b : K) :
    Detour seen (attempt inner (.find a) seen >>= fun _ => env.keyEq seen a b)
      (env.keyEq seen a b) :=
  .attempt rfl fun _ _ => .same _

/-- A call of a policy that a command makes on the table `m`, in the name of the operation `op`. -/
structure Command.FencedCall (env : Environment V K W) (t : Table V) (w : W) (cmd : Command V K)
    (op : Operation) (m : Table V) (h : Heard V K) : Prop where
  name : cmd.consulting? = some op
  /-- The policy sees the table with the fence up. -/
  seen : h.seen = m.fencedBy (some op)
  /-- It is the table that the command is run on, but for the room that an insertion has made. -/
  room : m = t ∨ cmd.isInsertion = true ∧ m = t.roomFor (t.size + 1)
  /-- A lookup that the policy attempts panics, whatever it would have called, and does nothing. -/
  nested : ∀ {K' W' : Type} (inner : Environment V K' W') (w' : W') (lookup : Command V K')
    (attempted : Operation), lookup.isLookup = true → lookup.consulting? = some attempted →
    lookup.run inner ⟨h.seen, w'⟩ = .error (.reentrant attempted op) ⟨h.seen, w'⟩
  /-- A panic of the policy ends the command, and nothing more happens to the table. -/
  panic : ∀ p, h.asked.panic? = some p → ∃ w', cmd.run env ⟨t, w⟩ = .error p ⟨m, w'⟩

namespace Command

variable {env : Environment V K W} {cmd : Command V K} {t m : Table V} {w : W} {op : Operation}

theorem room_of_consultedOn? (ht : t.Sound) (h : cmd.consultedOn? env t w = some m) :
    m = t ∨ cmd.isInsertion = true ∧ m = t.roomFor (t.size + 1) := by
  cases cmd with
  | insertNew | insertNew! | insertAny | insertAny! => exact .inr ⟨rfl, (ht.madeRoom? h).2⟩
  | _ => exact .inl (Option.some.inj h).symm

/-- All the calls of a command are fenced. -/
theorem Consults.fenced (ht : t.Sound) {calls : List (Heard V K)} (hc : cmd.Consults env t w calls)
    {h : Heard V K} (hh : h ∈ calls) : ∃ op m, cmd.FencedCall env t w op m h := by
  cases hop : cmd.consulting? with
  | none =>
      rw [hc.silent (.inl hop)] at hh
      cases hh
  | some op =>
      cases hm : cmd.consultedOn? env t w with
      | none =>
          rw [hc.silent (.inr hm)] at hh
          cases hh
      | some m =>
          obtain ⟨asked, rfl, -, hpanics⟩ := hc.asks op m hop hm
          obtain ⟨c, hcmem, rfl⟩ := List.mem_map.1 hh
          refine ⟨op, m, hop, rfl, room_of_consultedOn? ht hm, ?_, hpanics c hcmem⟩
          intro K' W' inner w' lookup attempted hlookup hattempted
          exact run_of_fence hlookup hattempted rfl inner w'

end Command

namespace Store

variable {env : Environment V K W} {s : Store V W}

/-- A fenced call that an action of a store makes. Only commands make any. -/
def FencedCall (env : Environment V K W) (s : Store V W) (h : Heard V K) : Action V K → Prop
  | .on i cmd => ∃ t op m, s.table? i = some t ∧ cmd.FencedCall env t s.world op m h
  | _ => False

theorem Consults.fenced (hs : s.Sound) {a : Action V K} {calls : List (Heard V K)}
    (hc : s.Consults env calls a) {h : Heard V K} (hh : h ∈ calls) : s.FencedCall env h a := by
  cases a with
  | create capacity =>
      cases (show calls = [] from hc)
      cases hh
  | copy i =>
      cases (show calls = [] from hc)
      cases hh
  | drop i =>
      cases (show calls = [] from hc)
      cases hh
  | on i cmd =>
      cases hi : s.table? i with
      | none =>
          simp only [Consults, hi] at hc
          subst hc
          cases hh
      | some t =>
          simp only [Consults, hi] at hc
          obtain ⟨op, m, hcall⟩ := Command.Consults.fenced (hs.table i t hi).1 hc hh
          exact ⟨t, op, m, hi, hcall⟩

/-- After every run and for every action: the policies are called with the fence up, on the table as
it was or with the room that an insertion made, so lookups that they attempt panic and do nothing,
and a panic that they let pass leaves that table; policies that catch it and go on make no
difference, to what the action does or to what it asks; and the action leaves every fence down. -/
theorem fence_after (env : Environment V K W) (w : W) (acts : List (Action V K)) (a : Action V K)
    (past : List (Heard V K)) :
    (∃ calls, perform env.heard a (((ofWorld w).after env acts).beside past)
        = attach (past ++ calls) (perform env a ((ofWorld w).after env acts))
      ∧ ∀ h ∈ calls, ((ofWorld w).after env acts).FencedCall env h a)
    ∧ (∀ env', env.Detoured env' →
      perform env' a ((ofWorld w).after env acts) = perform env a ((ofWorld w).after env acts)
      ∧ perform env'.heard a (((ofWorld w).after env acts).beside past)
        = perform env.heard a (((ofWorld w).after env acts).beside past))
    ∧ ∀ i t, (((ofWorld w).after env acts).step env a).table? i = some t → t.fence = none := by
  have hs := (sound_ofWorld w).after env acts
  refine ⟨?_, fun env' h => ⟨?_, ?_⟩, fun i t ht => ((hs.step env a).table i t ht).1.fence⟩
  · obtain ⟨calls, hrun, hcalls⟩ := perform_heard hs env a past
    exact ⟨calls, hrun, fun h hh => hcalls.fenced hs hh⟩
  · rw [h.alike.perform]
  · rw [h.alike.heard.perform]

end Store

end SeparateChaining
