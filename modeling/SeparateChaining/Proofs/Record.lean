import SeparateChaining.Proofs.Tally

/-!
# A record of what policies are asked

An environment can be listened to (`Environment.heard`): every call of
a policy goes on a record beside the world, with the table that the
policy saw, what it was asked and what came of it. Nothing else is
recorded, and nothing that an operation does depends on the record.

Most operations never call a policy. Listening leaves these as they
are, beside a record that they do not touch (`Op.beside`). That is one
equation for each of them, and `Op.beside` goes through everything that
operations are made of, so each follows the text of its operation. The
equations say twice what they are wanted for: the operation runs as it
runs without a listener, and it adds nothing to the record.
-/

namespace SeparateChaining

variable {V K W D α β : Type}

/-! ## What is heard -/

/-- What a policy is asked, and what comes of it. -/
inductive Consultation (V K : Type)
  | extract (v : V) (r : Except Panic K)
  | hash (k : K) (r : Except Panic UInt64)
  | keyEq (a b : K) (r : Except Panic Bool)
  deriving DecidableEq

/-- The panic that a policy raised. -/
def Consultation.panic? : Consultation V K → Option Panic
  | extract _ (.error p) | hash _ (.error p) | keyEq _ _ (.error p) => some p
  | _ => none

/-- A call of a policy, and the table that it saw. -/
structure Heard (V K : Type) where
  seen : Table V
  asked : Consultation V K

/-- An act on the world, and a note of what came of it at the end of a record. -/
def overheard {H : Type} (note : Except Panic α → H) (act : EStateM Panic W α) :
    EStateM Panic (W × List H) α := fun (w, past) =>
  match act w with
  | .ok a w => .ok a (w, past ++ [note (.ok a)])
  | .error p w => .error p (w, past ++ [note (.error p)])

/-- The environment with a record of what its policies are asked. -/
def Environment.heard (env : Environment V K W) : Environment V K (W × List (Heard V K)) where
  extract seen v := overheard (fun r => ⟨seen, .extract v r⟩) (env.extract seen v)
  hash seen k := overheard (fun r => ⟨seen, .hash k r⟩) (env.hash seen k)
  keyEq seen a b := overheard (fun r => ⟨seen, .keyEq a b r⟩) (env.keyEq seen a b)
  copy seen v := beside (env.copy seen v)
  dispose seen v := beside (env.dispose seen v)
  disposeUnwinding seen v := fun (w, past) => (env.disposeUnwinding seen v w, past)
  allocate b n := fun (w, past) => ((env.allocate b n w).1, ((env.allocate b n w).2, past))
  deallocate b n := beside (env.deallocate b n)
  reserve bytes := fun (w, past) => ((env.reserve bytes w).1, ((env.reserve bytes w).2, past))
  report n := fun (w, past) => (env.report n w, past)
  nodeBytes := env.nodeBytes
  slotBytes := env.slotBytes

/-! ## Operations beside a record -/

namespace Op

/-- How an operation ended, beside a record. -/
def attach (d : D) :
    EStateM.Result Panic (Running V W) α → EStateM.Result Panic (Running V (W × D)) α
  | .ok a s => .ok a ⟨s.table, (s.world, d)⟩
  | .error p s => .error p ⟨s.table, (s.world, d)⟩

/-- The operation beside a record that it does not touch. -/
def beside (op : Op W V α) : Op (W × D) V α := fun ⟨t, (w, d)⟩ => attach d (op ⟨t, w⟩)

theorem beside_run (op : Op W V α) (t : Table V) (w : W) (d : D) :
    op.beside ⟨t, (w, d)⟩ = attach d (op ⟨t, w⟩) := rfl

/-- What is done in two steps beside a record is done so in both. -/
theorem eq_beside_bind {op : Op W V α} {op' : Op (W × D) V α} {g : α → Op W V β}
    {g' : α → Op (W × D) V β} (hop : op' = op.beside) (hg : ∀ a, g' a = (g a).beside) :
    op' >>= g' = (op >>= g).beside := by
  obtain rfl := hop
  obtain rfl : g' = fun a => (g a).beside := funext hg
  funext ⟨t, w, d⟩
  show EStateM.bind op.beside (fun a => (g a).beside) ⟨t, (w, d)⟩
    = attach d (EStateM.bind op g ⟨t, w⟩)
  rw [EStateM.bind, EStateM.bind, beside_run]
  cases op ⟨t, w⟩ with
  | ok a s => rfl
  | error p s => rfl

theorem query_eq_beside (f : Table V → Except Panic α) :
    (query f : Op (W × D) V α) = (query f : Op W V α).beside := by
  funext ⟨t, w, d⟩
  simp only [beside, query]
  cases f t with
  | ok a => rfl
  | error p => rfl

theorem update_eq_beside (f : Table V → Except Panic (α × Table V)) :
    (update f : Op (W × D) V α) = (update f : Op W V α).beside := by
  funext ⟨t, w, d⟩
  simp only [beside, update]
  rcases f t with p | ⟨a, t'⟩
  · rfl
  · rfl

theorem world_eq_beside {act : EStateM Panic W α} {act' : EStateM Panic (W × D) α}
    (hact : act' = SeparateChaining.beside act) :
    (world act' : Op (W × D) V α) = (world act : Op W V α).beside := by
  obtain rfl := hact
  funext ⟨t, w, d⟩
  simp only [beside, world, SeparateChaining.beside]
  cases act w with
  | ok a w' => rfl
  | error p w' => rfl

theorem call_eq_beside (act : Table V → EStateM Panic W α) :
    (call fun t => SeparateChaining.beside (act t) : Op (W × D) V α) = (call act).beside := by
  funext ⟨t, w, d⟩
  simp only [beside, call, SeparateChaining.beside]
  cases act t w with
  | ok a w' => rfl
  | error p w' => rfl

theorem fenced_eq_beside (op : Operation) {body : Op W V α} {body' : Op (W × D) V α}
    (hbody : body' = body.beside) : fenced op body' = (fenced op body).beside := by
  obtain rfl := hbody
  funext ⟨t, w, d⟩
  simp only [beside, fenced]
  cases t.fence with
  | some running => rfl
  | none =>
      simp only
      cases body ⟨{ t with fence := some op }, w⟩ with
      | ok a s => rfl
      | error p s => rfl

theorem onPanic_eq_beside {body : Op W V α} {body' : Op (W × D) V α} {cleanup : Table V → W → W}
    {cleanup' : Table V → W × D → W × D} (hbody : body' = body.beside)
    (hclean : ∀ t w d, cleanup' t (w, d) = (cleanup t w, d)) :
    body'.onPanic cleanup' = (body.onPanic cleanup).beside := by
  obtain rfl := hbody
  funext ⟨t, w, d⟩
  simp only [beside, onPanic]
  cases body ⟨t, w⟩ with
  | ok a s => rfl
  | error p s => simp only [attach, hclean]

theorem infallible_eq_beside {op : Op W V (Except AllocError α)}
    {op' : Op (W × D) V (Except AllocError α)} (hop : op' = op.beside) :
    op'.infallible = op.infallible.beside := by
  refine eq_beside_bind hop fun r => ?_
  cases r with
  | ok a => rfl
  | error e => rfl

end Op

/-! ## Storage -/

namespace Supply

variable {env : Environment V K W}

/-- What is done in two steps beside a record is done so in both. -/
theorem eq_beside_bind {act : EStateM Panic W α} {act' : EStateM Panic (W × D) α}
    {g : α → EStateM Panic W β} {g' : α → EStateM Panic (W × D) β} (hact : act' = beside act)
    (hg : ∀ a, g' a = beside (g a)) : act' >>= g' = beside (act >>= g) := by
  obtain rfl := hact
  obtain rfl : g' = fun a => beside (g a) := funext hg
  funext ⟨w, d⟩
  show EStateM.bind (beside act) (fun a => beside (g a)) (w, d) = beside (EStateM.bind act g) (w, d)
  simp only [beside, EStateM.bind]
  cases act w with
  | ok a w' => rfl
  | error p w' => rfl

theorem fitBuckets_heard (n : Nat) :
    env.heard.fitBuckets n = beside (env.fitBuckets n) := by
  refine eq_beside_bind ?_ fun _ => rfl
  cases Ladder.notice? n with
  | none => rfl
  | some notice => rfl

theorem allocateBuckets_heard (n : Nat) :
    env.heard.allocateBuckets n = beside (env.allocateBuckets n) := by
  unfold allocateBuckets
  dsimp only
  split
  · rfl
  · refine eq_beside_bind rfl fun r => ?_
    cases r with
    | error e => rfl
    | ok u =>
        refine eq_beside_bind rfl fun reserved => ?_
        cases reserved with
        | true => rfl
        | false => exact eq_beside_bind rfl fun _ => rfl

theorem releaseBuckets_heard (b : Buckets) :
    env.heard.releaseBuckets b = beside (env.releaseBuckets b) := by
  unfold releaseBuckets
  split
  · rfl
  · split
    · rfl
    · rfl

end Supply

/-! ## Operations that call no policy -/

namespace Environment

variable {env : Environment V K W}

theorem disposeOp_heard (v : V) : env.heard.disposeOp v = (env.disposeOp v).beside :=
  Op.call_eq_beside fun t => env.dispose t v

theorem holding_heard (v : V) {body : Op W V α} {body' : Op (W × List (Heard V K)) V α}
    (hbody : body' = body.beside) : env.heard.holding v body' = (env.holding v body).beside :=
  Op.onPanic_eq_beside hbody fun _ _ _ => rfl

theorem unwindAll_heard (t : Table V) (vs : List V) (w : W) (past : List (Heard V K)) :
    vs.foldl (fun w v => env.heard.disposeUnwinding t v w) (w, past)
      = (vs.foldl (fun w v => env.disposeUnwinding t v w) w, past) := by
  induction vs generalizing w with
  | nil => rfl
  | cons v vs ih => exact ih (env.disposeUnwinding t v w)

theorem holdingAll_heard (vs : List V) {body : Op W V α} {body' : Op (W × List (Heard V K)) V α}
    (hbody : body' = body.beside) :
    env.heard.holdingAll vs body' = (env.holdingAll vs body).beside :=
  Op.onPanic_eq_beside hbody fun t w past => unwindAll_heard t vs w past

theorem disposeAll_heard (vs : List V) : env.heard.disposeAll vs = (env.disposeAll vs).beside := by
  induction vs with
  | nil => rfl
  | cons v vs ih =>
      exact Op.eq_beside_bind (holdingAll_heard vs (disposeOp_heard v)) fun _ => ih

end Environment

namespace Table

variable {env : Environment V K W}

open Op Environment

theorem growTo_heard (n : Nat) : growTo env.heard n = (growTo env n).beside := by
  refine eq_beside_bind (world_eq_beside (Supply.allocateBuckets_heard n)) fun r => ?_
  cases r with
  | error e => rfl
  | ok fresh =>
      refine eq_beside_bind rfl fun current => ?_
      refine eq_beside_bind (update_eq_beside _) fun old => ?_
      refine eq_beside_bind (world_eq_beside (Supply.releaseBuckets_heard old)) fun _ => ?_
      refine eq_beside_bind rfl fun _ => ?_
      refine eq_beside_bind rfl fun len => ?_
      exact eq_beside_bind (world_eq_beside rfl) fun _ => rfl

theorem rehash_heard (hint : Nat) : rehash env.heard hint = (rehash env hint).beside := by
  refine eq_beside_bind rfl fun current => ?_
  split
  · rfl
  · refine eq_beside_bind (world_eq_beside (Supply.fitBuckets_heard hint)) fun target => ?_
    split
    · rfl
    · exact fenced_eq_beside .rehash (growTo_heard target)

theorem reserve_heard (n : Nat) : reserve env.heard n = (reserve env n).beside := by
  refine eq_beside_bind rfl fun size => ?_
  dsimp only
  split
  · rfl
  · exact rehash_heard _

theorem refuse_heard (value : V) (e : AllocError) :
    (refuse env.heard value e : Op _ V (Except AllocError α)) = (refuse env value e).beside :=
  eq_beside_bind (disposeOp_heard value) fun _ => rfl

theorem reserveNode_heard : reserveNode env.heard = (reserveNode env).beside := by
  refine eq_beside_bind rfl fun r => ?_
  obtain ⟨full, room⟩ := r
  have hbytes : env.heard.reserveBytes ((room + 1) * env.slotBytes)
      = SeparateChaining.beside (env.reserveBytes ((room + 1) * env.slotBytes)) := rfl
  cases full with
  | true => exact world_eq_beside hbytes
  | false => rfl

theorem grantNode_heard (value : V) : grantNode env.heard value = (grantNode env value).beside := by
  refine eq_beside_bind (holding_heard value (world_eq_beside rfl)) fun r => ?_
  cases r with
  | error e => exact refuse_heard value e
  | ok u =>
      refine eq_beside_bind (holding_heard value reserveNode_heard) fun reserved => ?_
      cases reserved with
      | true => rfl
      | false =>
          refine eq_beside_bind (holding_heard value (world_eq_beside rfl)) fun _ => ?_
          exact refuse_heard value _

theorem link_heard (p : Chains.Place) (value : V) (hash : UInt64) :
    link env.heard p value hash = (link env p value hash).beside := by
  refine eq_beside_bind (holding_heard value (query_eq_beside _)) fun _ => ?_
  refine eq_beside_bind (grantNode_heard value) fun r => ?_
  cases r with
  | error e => rfl
  | ok u =>
      refine eq_beside_bind rfl fun k => ?_
      exact eq_beside_bind rfl fun c => rfl

theorem deleteNode_heard (k : ArenaKey) : deleteNode env.heard k = (deleteNode env k).beside := by
  refine eq_beside_bind rfl fun r => ?_
  cases r with
  | none => rfl
  | some v => exact eq_beside_bind (holding_heard v (world_eq_beside rfl)) fun _ => rfl

theorem removeNode_heard (k : ArenaKey) : removeNode env.heard k = (removeNode env k).beside := by
  refine eq_beside_bind rfl fun r => ?_
  cases r with
  | none => rfl
  | some p => exact eq_beside_bind rfl fun _ => deleteNode_heard k

theorem removeAt_heard (op : Operation) (c : Cursor) :
    removeAt env.heard op c = (removeAt env op c).beside := by
  refine eq_beside_bind (query_eq_beside _) fun cell => ?_
  refine fenced_eq_beside op (eq_beside_bind rfl fun next => ?_)
  refine eq_beside_bind (removeNode_heard cell.1) fun r => ?_
  cases r with
  | none => rfl
  | some v => rfl

theorem erase_heard (c : Cursor) : erase env.heard c = (erase env c).beside := by
  refine eq_beside_bind (removeAt_heard .erase c) fun r => ?_
  exact eq_beside_bind (disposeOp_heard r.2) fun _ => rfl

theorem remove_heard (c : Cursor) : remove env.heard c = (remove env c).beside :=
  eq_beside_bind (removeAt_heard .remove c) fun _ => rfl

theorem disposeRemoved_heard (v : Option V) :
    v.forM env.heard.disposeOp = (v.forM env.disposeOp).beside := by
  cases v with
  | none => rfl
  | some v => exact disposeOp_heard v

theorem eraseAlong_heard (n : Nat) (l : Link) :
    eraseAlong env.heard n l = (eraseAlong env n l).beside := by
  induction n generalizing l with
  | zero => rfl
  | succ n ih =>
      cases l with
      | none => rfl
      | some k =>
          refine eq_beside_bind rfl fun next => ?_
          refine eq_beside_bind (removeNode_heard k) fun v => ?_
          exact eq_beside_bind (disposeRemoved_heard v) fun _ => ih next

theorem clearChain_heard (i : Nat) (cells : List (Cell V)) :
    clearChain env.heard i cells = (clearChain env i cells).beside := by
  induction cells with
  | nil => rfl
  | cons cell cells ih =>
      refine eq_beside_bind rfl fun _ => ?_
      refine eq_beside_bind (deleteNode_heard cell.1) fun v => ?_
      exact eq_beside_bind (disposeRemoved_heard v) fun _ => ih

theorem clearBuckets_heard (is : List Nat) :
    clearBuckets env.heard is = (clearBuckets env is).beside := by
  induction is with
  | nil => rfl
  | cons i is ih =>
      refine eq_beside_bind rfl fun cells => ?_
      exact eq_beside_bind (clearChain_heard i cells) fun _ => ih

theorem clear_heard : clear env.heard = (clear env).beside := by
  refine eq_beside_bind rfl fun r => ?_
  refine eq_beside_bind (world_eq_beside rfl) fun _ => ?_
  exact fenced_eq_beside .clear (clearBuckets_heard _)

theorem create_heard (id capacity : Nat) :
    create env.heard.toSupply V id capacity
      = SeparateChaining.beside (create env.toSupply V id capacity) := by
  refine Supply.eq_beside_bind (Supply.fitBuckets_heard capacity) fun n => ?_
  exact Supply.eq_beside_bind (Supply.allocateBuckets_heard n) fun _ => rfl

theorem copyAll_heard (made vs : List V) :
    copyAll env.heard made vs = (copyAll env made vs).beside := by
  induction vs generalizing made with
  | nil => rfl
  | cons v vs ih =>
      refine eq_beside_bind (onPanic_eq_beside (call_eq_beside _) fun t w past => ?_) fun u => ih _
      exact unwindAll_heard t made.reverse w past

theorem grantCopy_heard : grantCopy env.heard = (grantCopy env).beside := by
  refine eq_beside_bind rfl fun r => ?_
  refine eq_beside_bind (world_eq_beside rfl) fun granted => ?_
  cases granted with
  | error e => rfl
  | ok u =>
      refine eq_beside_bind (world_eq_beside rfl) fun granted => ?_
      cases granted with
      | ok u => rfl
      | error e => exact eq_beside_bind (world_eq_beside rfl) fun _ => rfl

theorem copy_heard (id : Nat) : copy env.heard id = (copy env id).beside := by
  refine eq_beside_bind rfl fun values => ?_
  refine eq_beside_bind (copyAll_heard [] values) fun vs => ?_
  refine eq_beside_bind (holdingAll_heard vs grantCopy_heard) fun granted => ?_
  cases granted with
  | error e => exact eq_beside_bind (disposeAll_heard vs) fun _ => rfl
  | ok u => rfl

theorem releaseNodes_heard (ks : List ArenaKey) :
    releaseNodes env.heard ks = (releaseNodes env ks).beside := by
  induction ks with
  | nil => rfl
  | cons k ks ih =>
      refine eq_beside_bind rfl fun v => ?_
      refine eq_beside_bind ?_ fun _ => ih
      cases v with
      | none => rfl
      | some v =>
          exact onPanic_eq_beside (disposeOp_heard v) fun t w past =>
            unwindAll_heard t t.slotValues w past

theorem returnStorage_heard (b : Buckets) (n : Nat) :
    returnStorage env.heard.toSupply b n
      = SeparateChaining.beside (returnStorage env.toSupply b n) := by
  refine Supply.eq_beside_bind (Supply.releaseBuckets_heard b.emptied) fun _ => ?_
  split
  · rfl
  · rfl

theorem release_heard : release env.heard = (release env).beside := by
  refine eq_beside_bind rfl fun r => ?_
  refine eq_beside_bind rfl fun buckets => ?_
  refine eq_beside_bind ?_ fun _ => releaseNodes_heard r.2
  exact onPanic_eq_beside (world_eq_beside (returnStorage_heard buckets r.1)) fun t w past =>
    unwindAll_heard t t.slotValues w past

end Table

end SeparateChaining
