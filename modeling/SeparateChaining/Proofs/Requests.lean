import SeparateChaining.Proofs.Record.Trace

/-!
# Who asks for buckets

Buckets are requested by a growth, and by nothing else. A command that
has all the room it needs does not get to one. That is said twice. Such
a command does the same whatever a request for buckets would have come
to (`Command.run_answeringBuckets`), and if the supply keeps an audit of
its requests, all that the command adds to it are requests for nodes
(`Command.asksNodes_run`). The second follows from the first: requests
for buckets may as well be refused, without a word in the audit.
-/

namespace SeparateChaining

variable {V K W : Type}

/-! ## Audits -/

/-- The environment, but that requests for buckets are answered by `answer`. -/
def Environment.answeringBuckets (env : Environment V K W)
    (answer : Nat → W → Except AllocError Unit × W) : Environment V K W :=
  { env with
    allocate := fun
      | .node, n => env.allocate .node n
      | .bucket, n => answer n }

/-- In the world `w` the requests for storage so far are `requests w`, refused ones included. -/
structure Environment.Audits (env : Environment V K W) (requests : W → List (Block × Nat)) :
    Prop where
  allocate : ∀ b n w, requests (env.allocate b n w).2 = requests w ++ [(b, n)]
  deallocate : ∀ b n w, requests (worldAfter (env.deallocate b n w)) = requests w
  reserve : ∀ bytes w, requests (env.reserve bytes w).2 = requests w
  report : ∀ n w, requests (env.report n w) = requests w
  extract : ∀ seen v w, requests (worldAfter (env.extract seen v w)) = requests w
  hash : ∀ seen k w, requests (worldAfter (env.hash seen k w)) = requests w
  keyEq : ∀ seen a b w, requests (worldAfter (env.keyEq seen a b w)) = requests w
  dispose : ∀ seen v w, requests (worldAfter (env.dispose seen v w)) = requests w
  unwinding : ∀ seen v w, requests (env.disposeUnwinding seen v w) = requests w

/-- The environment with an audit of its requests beside the world. -/
def Environment.audited (env : Environment V K W) : Environment V K (W × List (Block × Nat)) where
  extract seen v := beside (env.extract seen v)
  hash seen k := beside (env.hash seen k)
  keyEq seen a b := beside (env.keyEq seen a b)
  copy seen v := beside (env.copy seen v)
  dispose seen v := beside (env.dispose seen v)
  disposeUnwinding seen v := fun (w, past) => (env.disposeUnwinding seen v w, past)
  allocate b n := fun (w, past) =>
    ((env.allocate b n w).1, ((env.allocate b n w).2, past ++ [(b, n)]))
  deallocate b n := beside (env.deallocate b n)
  reserve bytes := fun (w, past) => ((env.reserve bytes w).1, ((env.reserve bytes w).2, past))
  report n := fun (w, past) => (env.report n w, past)
  nodeBytes := env.nodeBytes
  slotBytes := env.slotBytes

theorem Environment.audits_audited (env : Environment V K W) : env.audited.Audits (·.2) where
  allocate _ _ _ := rfl
  deallocate b n w := worldAfter_beside (env.deallocate b n) w.1 w.2
  reserve _ _ := rfl
  report _ _ := rfl
  extract seen v w := worldAfter_beside (env.extract seen v) w.1 w.2
  hash seen k w := worldAfter_beside (env.hash seen k) w.1 w.2
  keyEq seen a b w := worldAfter_beside (env.keyEq seen a b) w.1 w.2
  dispose seen v w := worldAfter_beside (env.dispose seen v) w.1 w.2
  unwinding _ _ _ := rfl

/-- To the audit `past` nothing was added but requests for nodes. -/
def AsksNodes (past now : List (Block × Nat)) : Prop :=
  ∃ new, now = past ++ new ∧ ∀ r ∈ new, r.1 = .node

namespace Contract

variable {env : Environment V K W} {requests : W → List (Block × Nat)}
  {past : List (Block × Nat)}

/-- Nothing is requested but nodes. -/
def nodesOnly (requests : W → List (Block × Nat)) (past : List (Block × Nat)) :
    Contract V K W where
  inv _ _ w := AsksNodes past (requests w)
  panics _ := True
  refuses _ := True
  key _ _ := True
  hash _ _ := True
  eq _ _ _ := True

theorem settles_nodesOnly {α : Type} {d : Debt} {t : Table V} {w : W}
    {r : EStateM.Result Panic W α} {ok : α → Prop} (hw : AsksNodes past (requests w))
    (h : requests (Environment.worldAfter r) = requests w) (hok : ∀ a, ok a) :
    (nodesOnly requests past : Contract V K W).Settles d t ok r := by
  rw [← h] at hw
  cases r with
  | ok a w' => exact ⟨hw, hok a⟩
  | error p w' => exact ⟨hw, trivial⟩

/-- The contract holds where requests for buckets are refused and not put down. -/
theorem obeyed_nodesOnly (henv : env.Audits requests) (past : List (Block × Nat)) :
    (nodesOnly requests past).Obeyed
      (env.answeringBuckets fun _ w => (.error .capacityOverflow, w)) where
  extract _ seen v w h := settles_nodesOnly h (henv.extract seen v w) fun _ => trivial
  hash _ seen k w h := settles_nodesOnly h (henv.hash seen k w) fun _ => trivial
  keyEq _ seen a b w h := settles_nodesOnly h (henv.keyEq seen a b w) fun _ => trivial
  dispose _ seen v w h := settles_nodesOnly h (henv.dispose seen v w) fun _ => trivial
  unwinding _ seen v w h := (congrArg (AsksNodes past) (henv.unwinding seen v w)).mpr h
  report _ _ n w h := (congrArg (AsksNodes past) (henv.report n w)).mpr h
  reserve _ _ bytes w h := (congrArg (AsksNodes past) (henv.reserve bytes w)).mpr h
  unreserved _ _ _ _ := trivial
  allocate d t b n w h := by
    cases b with
    | bucket => exact ⟨h, trivial⟩
    | node =>
        have hw : AsksNodes past (requests (env.allocate .node n w).2) := by
          obtain ⟨new, hnew, hnodes⟩ := h
          rw [henv.allocate, hnew, List.append_assoc]
          exact ⟨_, rfl, List.forall_mem_append.2 ⟨hnodes, List.forall_mem_singleton.2 rfl⟩⟩
        show (nodesOnly requests past).Grants d t .node n (env.allocate .node n w)
        rcases hrun : env.allocate .node n w with ⟨e | u, w'⟩
        · rw [hrun] at hw
          exact ⟨hw, trivial⟩
        · rw [hrun] at hw
          exact hw
  deallocate _ _ b n w h := settles_nodesOnly h (henv.deallocate b n w) fun _ => trivial

theorem suits_nodesOnly (henv : env.Audits requests) (past : List (Block × Nat))
    (cmd : Command V K) :
    (nodesOnly requests past).Suits
      (env.answeringBuckets fun _ w => (.error .capacityOverflow, w)) cmd where
  obeyed := obeyed_nodesOnly henv past
  grows := ⟨fun _ _ _ _ _ _ _ _ h => h, fun _ _ _ _ _ _ _ _ _ _ h => h⟩
  links _ _ _ _ _ _ _ _ h := h
  unlinks _ _ _ _ _ _ _ h := h
  edits _ _ _ _ _ _ _ _ h := h
  misuse _ _ := trivial

end Contract

/-! ## Operations that request no buckets -/

namespace Table

variable {env : Environment V K W} {answer : Nat → W → Except AllocError Unit × W} {t : Table V}

theorem HasRoom.fits {n : Nat} (h : t.HasRoom n) :
    n ≤ t.bucketCount ∨ Ladder.fit n ≤ t.bucketCount :=
  h.imp_right (Nat.le_trans (Ladder.bounds_fit n).2)

theorem rehash_answeringBuckets {hint : Nat} (hroom : t.HasRoom hint) (w : W) :
    rehash (env.answeringBuckets answer) hint ⟨t, w⟩ = rehash env hint ⟨t, w⟩ := by
  unfold rehash
  rw [Op.run_read_bind, Op.run_read_bind]
  show (if hint ≤ t.bucketCount then _ else _ : Op W V _) _
    = (if hint ≤ t.bucketCount then _ else _ : Op W V _) _
  split
  · rfl
  · have hfits := hroom.fits.resolve_left ‹_›
    have hfit := env.fitBuckets_run hint w
    have hfit' : (env.answeringBuckets answer).fitBuckets hint w = _ := hfit
    rw [Op.run_bind_ok (Op.run_world_ok hfit), Op.run_bind_ok (Op.run_world_ok hfit'),
      if_pos hfits, if_pos hfits]

theorem makeRoom_answeringBuckets (hroom : t.HasRoom (t.size + 1)) (v : V) (w : W) :
    makeRoom (env.answeringBuckets answer) v ⟨t, w⟩ = makeRoom env v ⟨t, w⟩ := by
  have hrehash : (do rehash (env.answeringBuckets answer) ((← .read (·.size)) + 1) : Op W V _)
      ⟨t, w⟩ = (do rehash env ((← .read (·.size)) + 1) : Op W V _) ⟨t, w⟩ :=
    rehash_answeringBuckets hroom w
  unfold makeRoom Environment.holding Op.onPanic
  rw [hrehash]
  rfl

theorem insertNew_answeringBuckets (hroom : t.HasRoom (t.size + 1)) (v : V) (w : W) :
    insertNew (env.answeringBuckets answer) v ⟨t, w⟩ = insertNew env v ⟨t, w⟩ := by
  rw [insertNew_eq, insertNew_eq, prepare_eq, prepare_eq]
  exact Op.run_bind_congr (Op.run_bind_congr (makeRoom_answeringBuckets hroom v w))

theorem insertAny_answeringBuckets (hroom : t.HasRoom (t.size + 1)) (v : V) (w : W) :
    insertAny (env.answeringBuckets answer) v ⟨t, w⟩ = insertAny env v ⟨t, w⟩ := by
  rw [insertAny_eq, insertAny_eq, prepare_eq, prepare_eq]
  exact Op.run_bind_congr (Op.run_bind_congr (makeRoom_answeringBuckets hroom v w))

theorem eraseAlong_answeringBuckets (n : Nat) (l : Link) :
    (eraseAlong (env.answeringBuckets answer) n l : Op W V Unit) = eraseAlong env n l := by
  induction n generalizing l with
  | zero => rfl
  | succ n ih =>
      cases l with
      | none => rfl
      | some k =>
          rw [eraseAlong, eraseAlong]
          simp only [ih]
          rfl

theorem clearChain_answeringBuckets (i : Nat) (cells : List (Cell V)) :
    clearChain (env.answeringBuckets answer) i cells = clearChain env i cells := by
  induction cells with
  | nil => rfl
  | cons cell cells ih =>
      rw [clearChain, clearChain, ih]
      rfl

theorem clearBuckets_answeringBuckets (is : List Nat) :
    (clearBuckets (env.answeringBuckets answer) is : Op W V Unit) = clearBuckets env is := by
  induction is with
  | nil => rfl
  | cons i is ih =>
      rw [clearBuckets, clearBuckets, ih]
      simp only [clearChain_answeringBuckets]

theorem hashesCurrent_answeringBuckets (cells : List (Cell V)) :
    hashesCurrent (env.answeringBuckets answer) cells = hashesCurrent env cells := by
  induction cells with
  | nil => rfl
  | cons cell cells ih =>
      rw [hashesCurrent, hashesCurrent, ih]
      rfl

theorem equalComeFirst_answeringBuckets (k : K) (left : Bool) (vs : List V) :
    equalComeFirst (env.answeringBuckets answer) k left vs = equalComeFirst env k left vs := by
  induction vs generalizing left with
  | nil => rfl
  | cons v vs ih =>
      rw [equalComeFirst, equalComeFirst]
      simp only [ih]
      rfl

theorem runsContiguous_answeringBuckets (vs : List V) :
    runsContiguous (env.answeringBuckets answer) vs = runsContiguous env vs := by
  induction vs with
  | nil => rfl
  | cons v vs ih =>
      rw [runsContiguous, runsContiguous, ih]
      simp only [equalComeFirst_answeringBuckets]
      rfl

theorem check_answeringBuckets :
    (check (env.answeringBuckets answer) : Op W V Bool) = check env := by
  have hhashes : hashesCurrent (env.answeringBuckets answer) = hashesCurrent env :=
    funext hashesCurrent_answeringBuckets
  unfold check
  rw [hhashes]
  simp only [runsContiguous_answeringBuckets]

end Table

namespace Command

variable {env : Environment V K W} {cmd : Command V K} {t : Table V}

/-- Whether a command is a request for room and nothing else. -/
def isRequest : Command V K → Bool
  | rehash _ | rehash! _ | reserve _ | reserve! _ => true
  | _ => false

/-- A command that has the room it needs does the same whatever a request for buckets would have
come to. -/
theorem run_answeringBuckets (hcmd : cmd.isRequest = false)
    (hroom : cmd.isInsertion = true → t.HasRoom (t.size + 1))
    (answer : Nat → W → Except AllocError Unit × W) (w : W) :
    cmd.run (env.answeringBuckets answer) ⟨t, w⟩ = cmd.run env ⟨t, w⟩ := by
  cases cmd with
  | insertNew v => exact Op.run_bind_congr (Table.insertNew_answeringBuckets (hroom rfl) v w)
  | insertNew! v =>
      exact Op.run_bind_congr (Op.run_bind_congr (Table.insertNew_answeringBuckets (hroom rfl) v w))
  | insertAny v => exact Op.run_bind_congr (Table.insertAny_answeringBuckets (hroom rfl) v w)
  | insertAny! v =>
      exact Op.run_bind_congr (Op.run_bind_congr (Table.insertAny_answeringBuckets (hroom rfl) v w))
  | rehash | rehash! | reserve | reserve! => cases hcmd
  | eraseRun q =>
      rw [run, run, Table.eraseRun]
      simp only [Table.eraseAlong_answeringBuckets]
      rfl
  | clear =>
      rw [run, run, Table.clear]
      simp only [Table.clearBuckets_answeringBuckets]
      rfl
  | check => rw [run, run, Table.check_answeringBuckets]
  | _ => rfl

/-- All that such a command requests are nodes. -/
theorem asksNodes_run {requests : W → List (Block × Nat)} (henv : env.Audits requests)
    (ht : t.Sound) (hcmd : cmd.isRequest = false)
    (hroom : cmd.isInsertion = true → t.HasRoom (t.size + 1)) (w : W) :
    match cmd.run env ⟨t, w⟩ with
    | .ok _ s | .error _ s => AsksNodes (requests w) (requests s.world) := by
  have hkeeps := keeps_run (t := t) cmd (Contract.suits_nodesOnly henv (requests w) cmd)
  have hnone : AsksNodes (requests w) (requests w) :=
    ⟨[], (List.append_nil _).symm, fun _ hr => nomatch hr⟩
  cases hrun : cmd.run env ⟨t, w⟩ with
  | ok a s =>
      obtain ⟨d, t', -, hasks, -⟩ := hkeeps.of_run_ok ht.fence ht.wellFormed hnone
        ((run_answeringBuckets hcmd hroom _ w).trans hrun)
      exact hasks
  | error p s =>
      obtain ⟨t', -, hasks, -⟩ := hkeeps.of_run_error ht.fence ht.wellFormed hnone
        ((run_answeringBuckets hcmd hroom _ w).trans hrun)
      exact hasks

end Command

end SeparateChaining
