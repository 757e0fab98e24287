import SeparateChaining.Proofs.Storage.Budget

/-!
# The ledger of a budget

A budget keeps four words and no history. Here a run of calls is kept
beside it, and the words are read off the run: what is live of a kind
of block is what was granted of it less what was returned, and the
count of refusals counts the requests that were refused. The calls are
any at all, also returns of units that were never granted, and each may
come through references of its own (`Handle`): a reference forwards to
what it refers to, so all of them reach the one budget there is.

One invariant carries this: what is live stays within the limit
(`Within`). It holds because a request is compared with what is
available before it is added, and it is why no sum of the counters ever
wraps, although the limit may be any word.
-/

namespace SeparateChaining.Budget

variable {b b' : Budget} {block : Block} {n : UInt64}

/-! ## One call -/

/-- A call on a budget. -/
inductive Call
  | allocate (block : Block) (count : UInt64)
  | deallocate (block : Block) (count : UInt64)
  deriving DecidableEq, Repr

/-- What comes of a call. -/
inductive Outcome
  | granted
  | refused (cause : AllocError)
  | returned
  | panicked (cause : Panic)

/-- What comes of a call, and what it leaves. A panic leaves the budget as it was. -/
def perform (b : Budget) : Call → Outcome × Budget
  | .allocate block n =>
    match b.allocate block n.toNat with
    | (.ok (), b') => (.granted, b')
    | (.error e, b') => (.refused e, b')
  | .deallocate block n =>
    match b.deallocate block n.toNat with
    | .ok b' => (.returned, b')
    | .error p => (.panicked p, b)

/-- A way to a budget: the budget itself, or a reference to a way to it, borrowed or counted. -/
inductive Handle
  | owner
  | borrowed (target : Handle)
  | counted (target : Handle)
  deriving DecidableEq, Repr

/-- A reference forwards a call to what it refers to. -/
def Handle.perform (b : Budget) (call : Call) : Handle → Outcome × Budget
  | .owner => b.perform call
  | .borrowed target => target.perform b call
  | .counted target => target.perform b call

theorem Handle.perform_eq (b : Budget) (call : Call) (handle : Handle) :
    handle.perform b call = b.perform call := by
  induction handle with
  | owner => rfl
  | borrowed target ih => exact ih
  | counted target ih => exact ih

/-- What is live stays within the limit. -/
def Within (b : Budget) : Prop := b.liveNodes.toNat + b.liveBuckets.toNat ≤ b.limit.toNat

theorem Within.counts (h : b.Within) : b.Counts ⟨b.liveNodes.toNat, b.liveBuckets.toNat⟩ :=
  ⟨rfl, rfl, h⟩

theorem Within.toNat_inUse (h : b.Within) :
    b.inUse.toNat = b.liveNodes.toNat + b.liveBuckets.toNat :=
  h.counts.toNat_inUse

theorem Within.toNat_available (h : b.Within) :
    b.available.toNat = b.limit.toNat - (b.liveNodes.toNat + b.liveBuckets.toNat) :=
  h.counts.toNat_available

/-- What is live of both kinds together changes as what is live of the one. -/
theorem Sets.sum {m : Nat} (h : b.Sets b' block m) :
    b'.liveNodes.toNat + b'.liveBuckets.toNat + (b.live block).toNat
      = b.liveNodes.toNat + b.liveBuckets.toNat + m := by
  cases block with
  | node =>
      have hbuckets : b'.liveBuckets = b.liveBuckets := h.others .bucket (by decide)
      have hnodes : b'.liveNodes.toNat = m := h.live
      show _ + _ + b.liveNodes.toNat = _
      rw [hbuckets, hnodes]
      omega
  | bucket =>
      have hnodes : b'.liveNodes = b.liveNodes := h.others .node (by decide)
      have hbuckets : b'.liveBuckets.toNat = m := h.live
      show _ + _ + b.liveBuckets.toNat = _
      rw [hnodes, hbuckets]
      omega

theorem Within.perform_granted (h : b.Within) (block : Block)
    (hn : n.toNat ≤ b.available.toNat) :
    ∃ b', b.perform (.allocate block n) = (.granted, b') ∧ b'.Within
      ∧ b.Sets b' block ((b.live block).toNat + n.toNat) := by
  have hwithin : b.liveNodes.toNat + b.liveBuckets.toNat ≤ b.limit.toNat := h
  have hfits : b.liveNodes.toNat + b.liveBuckets.toNat + n.toNat ≤ b.limit.toNat := by
    have hleft := h.toNat_available
    omega
  have hsets := sets_add block hfits
  refine ⟨_, by rw [perform, allocate, if_pos hn], ?_, hsets⟩
  have hboth := hsets.sum
  rw [Within, hsets.limit]
  omega

theorem perform_refused (block : Block) (hn : b.available.toNat < n.toNat) :
    b.perform (.allocate block n)
      = (.refused (.exhausted n.toNat b.available.toNat),
        { b with refusals := b.refusals + 1 }) := by
  rw [perform, allocate, if_neg (Nat.not_le.2 hn)]

theorem Within.perform_returned (h : b.Within) (hn : n.toNat ≤ (b.live block).toNat) :
    ∃ b', b.perform (.deallocate block n) = (.returned, b') ∧ b'.Within
      ∧ b.Sets b' block ((b.live block).toNat - n.toNat) := by
  have hwithin : b.liveNodes.toNat + b.liveBuckets.toNat ≤ b.limit.toNat := h
  have hsets := sets_sub hn
  refine ⟨_, by rw [perform, deallocate, if_pos hn], ?_, hsets⟩
  have hboth := hsets.sum
  rw [Within, hsets.limit]
  omega

theorem perform_panicked (hn : (b.live block).toNat < n.toNat) :
    b.perform (.deallocate block n)
      = (.panicked (.overReleased n.toNat block (b.live block).toNat), b) := by
  rw [perform, deallocate, if_neg (Nat.not_le.2 hn)]

/-- A request through a handle. -/
theorem Within.perform_allocate (h : b.Within) (handle : Handle) (block : Block) (n : UInt64) :
    if n.toNat ≤ b.available.toNat then
      ∃ b', handle.perform b (.allocate block n) = (.granted, b')
        ∧ b.Sets b' block ((b.live block).toNat + n.toNat)
    else handle.perform b (.allocate block n)
      = (.refused (.exhausted n.toNat b.available.toNat),
        { b with refusals := b.refusals + 1 }) := by
  rw [handle.perform_eq]
  split
  · obtain ⟨b', hrun, -, hsets⟩ := h.perform_granted block ‹_›
    exact ⟨b', hrun, hsets⟩
  · exact perform_refused block (Nat.not_le.1 ‹_›)

/-- A return through a handle. -/
theorem Within.perform_deallocate (h : b.Within) (handle : Handle) (block : Block) (n : UInt64) :
    if n.toNat ≤ (b.live block).toNat then
      ∃ b', handle.perform b (.deallocate block n) = (.returned, b')
        ∧ b.Sets b' block ((b.live block).toNat - n.toNat)
    else handle.perform b (.deallocate block n)
      = (.panicked (.overReleased n.toNat block (b.live block).toNat), b) := by
  rw [handle.perform_eq]
  split
  · obtain ⟨b', hrun, -, hsets⟩ := h.perform_returned ‹_›
    exact ⟨b', hrun, hsets⟩
  · exact perform_panicked (Nat.not_le.1 ‹_›)

/-! ## Runs -/

/-- What a run of calls through handles leaves. -/
def after (b : Budget) (calls : List (Handle × Call)) : Budget :=
  calls.foldl (fun b (handle, call) => (handle.perform b call).2) b

/-- The calls of a run, each with what came of it. -/
def record (b : Budget) : List (Handle × Call) → List (Call × Outcome)
  | [] => []
  | (handle, call) :: calls =>
    let (outcome, b') := handle.perform b call
    (call, outcome) :: b'.record calls

/-- The units of `block` that one call was granted. -/
def grantedBy (block : Block) : Call × Outcome → Nat
  | (.allocate block' n, .granted) => if block' = block then n.toNat else 0
  | _ => 0

/-- The units of `block` that one call returned. -/
def returnedBy (block : Block) : Call × Outcome → Nat
  | (.deallocate block' n, .returned) => if block' = block then n.toNat else 0
  | _ => 0

def Outcome.isRefusal : Outcome → Bool
  | .refused _ => true
  | _ => false

def granted (block : Block) (es : List (Call × Outcome)) : Nat := (es.map (grantedBy block)).sum

def returned (block : Block) (es : List (Call × Outcome)) : Nat := (es.map (returnedBy block)).sum

/-- The number of requests that were refused. -/
def refused (es : List (Call × Outcome)) : Nat := es.countP (·.2.isRefusal)

/-- What is recorded between `b` and `b'` accounts for all that differs between them. -/
structure Accounts (b : Budget) (es : List (Call × Outcome)) (b' : Budget) : Prop where
  within : b'.Within
  limit : b'.limit = b.limit
  live : ∀ block, (b'.live block).toNat + returned block es
    = (b.live block).toNat + granted block es
  refusals : b'.refusals = b.refusals + (refused es).toUInt64

theorem Accounts.trans {b₁ b₂ b₃ : Budget} {es es' : List (Call × Outcome)}
    (h : b₁.Accounts es b₂) (h' : b₂.Accounts es' b₃) : b₁.Accounts (es ++ es') b₃ := by
  refine ⟨h'.within, h'.limit.trans h.limit, fun block => ?_, ?_⟩
  · have hlive := h.live block
    have hlive' := h'.live block
    simp only [granted, returned, List.map_append, List.sum_append] at *
    omega
  · rw [h'.refusals, h.refusals, refused, refused, refused, List.countP_append, UInt64.add_assoc]
    congr 1
    exact (UInt64.ofNat_add ..).symm

/-- One case for each thing that may come of a call. -/
theorem Within.accounts_perform (h : b.Within) (call : Call) :
    b.Accounts [(call, (b.perform call).1)] (b.perform call).2 := by
  cases call with
  | allocate block n =>
      rcases Nat.lt_or_ge b.available.toNat n.toNat with hn | hn
      · rw [perform_refused block hn]
        exact ⟨h, rfl, fun _ => rfl, rfl⟩
      · obtain ⟨b', hrun, hwithin, hsets⟩ := h.perform_granted block hn
        rw [hrun]
        refine ⟨hwithin, hsets.limit, fun block' => ?_, ?_⟩
        · show (b'.live block').toNat + 0 = _ + ((if block = block' then n.toNat else 0) + 0)
          rw [hsets.live_eq]
          split
          · subst block'
            rfl
          · rfl
        · rw [hsets.refusals]
          exact (UInt64.add_zero _).symm
  | deallocate block n =>
      rcases Nat.lt_or_ge (b.live block).toNat n.toNat with hn | hn
      · rw [perform_panicked hn]
        exact ⟨h, rfl, fun _ => rfl, (UInt64.add_zero _).symm⟩
      · obtain ⟨b', hrun, hwithin, hsets⟩ := h.perform_returned hn
        rw [hrun]
        refine ⟨hwithin, hsets.limit, fun block' => ?_, ?_⟩
        · show (b'.live block').toNat + ((if block = block' then n.toNat else 0) + 0) = _ + 0
          rw [hsets.live_eq]
          split
          · subst block'
            omega
          · rfl
        · rw [hsets.refusals]
          exact (UInt64.add_zero _).symm

theorem Within.accounts_after (h : b.Within) (calls : List (Handle × Call)) :
    b.Accounts (b.record calls) (b.after calls) := by
  induction calls generalizing b with
  | nil => exact ⟨h, rfl, fun _ => rfl, (UInt64.add_zero _).symm⟩
  | cons entry calls ih =>
      obtain ⟨handle, call⟩ := entry
      have hstep := h.accounts_perform call
      rw [← handle.perform_eq] at hstep
      exact hstep.trans (ih hstep.within)

/-- After every run of calls on a fresh budget, through any handles, what is live of a kind of block
is what was granted of it less what was returned, the two together stay within the limit, and what
is available is the rest of the limit. The next request is granted exactly if so much is available,
and then adds its units to those live and changes nothing else. Otherwise it reports what is
available, and changes nothing but the count of refusals. The next return is a panic exactly if more
units come back than are live, and otherwise takes its units away and changes nothing else. -/
theorem accounted_calls (limit : UInt64) (calls : List (Handle × Call)) :
    let b := (ofLimit limit).after calls
    let es := (ofLimit limit).record calls
    (b.limit = limit
      ∧ (b.live .node).toNat + (b.live .bucket).toNat ≤ limit.toNat
      ∧ b.inUse.toNat = (b.live .node).toNat + (b.live .bucket).toNat
      ∧ b.available.toNat = limit.toNat - b.inUse.toNat
      ∧ (∀ block, (b.live block).toNat + returned block es = granted block es)
      ∧ (refused es < countLimit → b.refusals.toNat = refused es))
    ∧ (∀ (handle : Handle) block (n : UInt64), if n.toNat ≤ b.available.toNat then
        ∃ b', handle.perform b (.allocate block n) = (.granted, b')
          ∧ b.Sets b' block ((b.live block).toNat + n.toNat)
      else handle.perform b (.allocate block n)
        = (.refused (.exhausted n.toNat b.available.toNat), { b with refusals := b.refusals + 1 }))
    ∧ ∀ (handle : Handle) block (n : UInt64), if n.toNat ≤ (b.live block).toNat then
        ∃ b', handle.perform b (.deallocate block n) = (.returned, b')
          ∧ b.Sets b' block ((b.live block).toNat - n.toNat)
      else handle.perform b (.deallocate block n)
        = (.panicked (.overReleased n.toNat block (b.live block).toNat), b) := by
  intro b es
  have hfresh : (ofLimit limit).Within := Nat.zero_le _
  obtain ⟨hwithin, hlimit, hlive, hrefusals⟩ := hfresh.accounts_after calls
  refine ⟨⟨hlimit, ?_, hwithin.toNat_inUse, ?_, fun block => ?_, fun hfew => ?_⟩, ?_, ?_⟩
  · rw [← show b.limit = limit from hlimit]
    exact hwithin
  · rw [hwithin.toNat_inUse, hwithin.toNat_available, hlimit]
    rfl
  · rw [hlive block]
    cases block <;> exact Nat.zero_add _
  · rw [hrefusals, show (ofLimit limit).refusals = 0 from rfl, UInt64.zero_add]
    exact Nat.mod_eq_of_lt hfew
  · exact hwithin.perform_allocate
  · exact hwithin.perform_deallocate

end SeparateChaining.Budget
