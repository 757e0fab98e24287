import SeparateChaining.Environment.Policies
import SeparateChaining.Proofs.Storage.Budget
import SeparateChaining.Proofs.Tally

/-!
# Accounting for storage

Tables that share a budget hold together exactly what is live in it: a
budget that tables draw on keeps a tally (`Draws.tallies`), and what it
counts as live is what they hold (`Store.accounted_after`).
-/

namespace SeparateChaining

variable {V K W α : Type}

/-! ## Environments that draw on a budget -/

/-- Storage is granted by the budget that the world holds and returned to it, and nothing else
changes that budget. -/
structure Environment.Draws (env : Environment V K W) (budget : W → Budget) : Prop where
  allocate : ∀ b n w,
    ((env.allocate b n w).1, budget (env.allocate b n w).2) = (budget w).allocate b n
  deallocate : ∀ b n w, match (budget w).deallocate b n with
    | .ok b' => ∃ w', env.deallocate b n w = .ok () w' ∧ budget w' = b'
    | .error p => ∃ w', env.deallocate b n w = .error p w' ∧ budget w' = budget w
  reserve : ∀ bytes w, budget (env.reserve bytes w).2 = budget w
  report : ∀ n w, budget (env.report n w) = budget w
  extract : ∀ seen v w, budget (worldAfter (env.extract seen v w)) = budget w
  hash : ∀ seen k w, budget (worldAfter (env.hash seen k w)) = budget w
  keyEq : ∀ seen a b w, budget (worldAfter (env.keyEq seen a b w)) = budget w
  copy : ∀ seen v w, budget (worldAfter (env.copy seen v w)) = budget w
  dispose : ∀ seen v w, budget (worldAfter (env.dispose seen v w)) = budget w
  unwinding : ∀ seen v w, budget (env.disposeUnwinding seen v w) = budget w

/-- Plain policies draw on the budget that is their supply. -/
theorem Budget.draws_supply (p : Policies V K) (nodeBytes slotBytes : Nat) :
    (p.environment (supply nodeBytes slotBytes)).Draws id where
  allocate _ _ _ := rfl
  deallocate b n w := by
    cases hreturn : (id w).deallocate b n with
    | ok b' => exact ⟨b', supply_deallocate_ok hreturn, rfl⟩
    | error q => exact ⟨w, supply_deallocate_error hreturn, rfl⟩
  reserve _ _ := rfl
  report _ _ := rfl
  extract _ _ _ := rfl
  hash _ _ _ := rfl
  keyEq _ _ _ _ := rfl
  copy _ _ _ := rfl
  dispose _ _ _ := rfl
  unwinding _ _ _ := rfl

/-- What is live in the budget is a tally of what is granted. -/
theorem Environment.Draws.tallies {env : Environment V K W} {budget : W → Budget}
    (henv : env.Draws budget) : env.Tallies fun w => (budget w).Counts where
  allocate b n w d h := by
    have hcounts := h.allocate b n
    rw [← henv.allocate] at hcounts
    rcases hrun : env.allocate b n w with ⟨e | u, w'⟩
    · rw [hrun] at hcounts
      exact hcounts
    · rw [hrun] at hcounts
      exact hcounts
  deallocate b n w d h := by
    obtain ⟨b', hreturn, hcounts⟩ := h.deallocate
    have hrun := henv.deallocate b n w
    rw [hreturn] at hrun
    obtain ⟨w', hrun, rfl⟩ := hrun
    exact ⟨w', hrun, hcounts⟩
  reserve bytes w d h := (henv.reserve bytes w).symm ▸ h
  report n w d h := (henv.report n w).symm ▸ h
  extract seen v w d h := (henv.extract seen v w).symm ▸ h
  hash seen k w d h := (henv.hash seen k w).symm ▸ h
  keyEq seen a b w d h := (henv.keyEq seen a b w).symm ▸ h
  copy seen v w d h := (henv.copy seen v w).symm ▸ h
  dispose seen v w d h := (henv.dispose seen v w).symm ▸ h
  unwinding seen v w d h := (henv.unwinding seen v w).symm ▸ h

/-! ## All tables of a store -/

namespace Store

variable {env : Environment V K W} {budget : W → Budget} {s : Store V W} {i : Nat} {t : Table V}

/-- The budget counts what the tables hold. -/
def Accounted (budget : W → Budget) (s : Store V W) : Prop :=
  (budget s.world).Counts ⟨s.sum Table.size, s.sum Table.bucketCount⟩

theorem accounted_run (henv : env.Draws budget) {w : W} {limit : UInt64}
    (hw : budget w = .ofLimit limit) (acts : List (Action V K)) :
    ((ofWorld w : Store V W).after env acts).Sound
      ∧ ((ofWorld w : Store V W).after env acts).Accounted budget := by
  refine tallied_after henv.tallies ?_ acts
  rw [hw]
  exact Budget.counts_ofLimit limit

/-- An action that makes no table leaves as much live as there was. -/
theorem live_place_none (h : s.Accounted budget) {w : W}
    (h' : (place { s with world := w } none).Accounted budget) (b : Block) :
    (budget w).live b = (budget s.world).live b := by
  have hsize := sum_place Table.size { s with world := w } none
  have hbuckets := sum_place Table.bucketCount { s with world := w } none
  rw [Accounted, hsize, hbuckets] at h'
  exact h.live_eq h' b

theorem live_create (henv : env.Draws budget) (hs : s.Sound) (h : s.Accounted budget)
    {capacity : Nat} {s' : Store V W}
    (hfails : (∃ e, perform env (.create capacity) s = .ok (.created (.error e)) s')
      ∨ ∃ p, perform env (.create capacity) s = .error p s') (b : Block) :
    (budget s'.world).live b = (budget s.world).live b := by
  have hsettled := settled_create henv.tallies h capacity
  rcases hfails with ⟨e, hfails⟩ | ⟨p, hfails⟩
  · rw [hfails] at hsettled
    cases performs_of_perform hs hfails
    exact live_place_none h hsettled b
  · rw [hfails] at hsettled
    cases performs_of_perform hs hfails
    exact live_place_none h hsettled.1 b

theorem live_copy (henv : env.Draws budget) (hs : s.Sound) (h : s.Accounted budget) {p : Panic}
    {s' : Store V W} (hfails : perform env (.copy i) s = .error p s') (b : Block) :
    (budget s'.world).live b = (budget s.world).live b := by
  have hsettled := settled_copy (i := i) henv.tallies hs h
  rw [hfails] at hsettled
  cases performs_of_perform hs hfails
  exact live_place_none h hsettled.1 b

theorem sum_eq_zero (f : Table V → Nat) (h : ∀ i, s.table? i = none) : s.sum f = 0 := by
  refine List.sum_eq_zero ?_
  intro n hn
  obtain ⟨t, ht, rfl⟩ := List.mem_map.1 hn
  obtain ⟨i, hi, rfl⟩ := List.mem_iff_getElem.1 ht
  have hnone := h i
  rw [table?, Array.getElem?_eq_getElem (by simpa using hi)] at hnone
  have hnone' : s.tables.toList[i] = none := hnone
  rw [hnone']
  rfl

/-- What holds of tables that share a budget with nothing else. -/
structure Balanced (env : Environment V K W) (budget : W → Budget) (s : Store V W) : Prop where
  liveNodes : (budget s.world).liveNodes.toNat = s.sum Table.size
  liveBuckets : (budget s.world).liveBuckets.toNat = s.sum Table.bucketCount
  /-- A return is refused only in the name of foreign code. -/
  returns : ∀ a n b live s', perform env a s = .error (.overReleased n b live) s' →
    env.toCaller.Raises (.overReleased n b live)
  /-- A construction that fails holds nothing. -/
  failedCreate : ∀ capacity s',
    ((∃ e, perform env (.create capacity) s = .ok (.created (.error e)) s')
      ∨ ∃ p, perform env (.create capacity) s = .error p s') →
    ∀ b, (budget s'.world).live b = (budget s.world).live b
  /-- A copy that is refused, or that panics otherwise, holds nothing. -/
  failedCopy : ∀ i p s', perform env (.copy i) s = .error p s' →
    ∀ b, (budget s'.world).live b = (budget s.world).live b
  /-- When all tables are released nothing is in use. -/
  released : (∀ i, s.table? i = none) → (budget s.world).inUse = 0

theorem balanced (henv : env.Draws budget) (hs : s.Sound) (h : s.Accounted budget) :
    s.Balanced env budget where
  liveNodes := h.nodes
  liveBuckets := h.buckets
  returns a n b live s' hrun := by
    have hsettled := settled_perform henv.tallies hs h a
    rw [hrun] at hsettled
    rcases hsettled.2 with hmisuse | hraises
    · cases hmisuse
    · exact hraises
  failedCreate capacity s' hfails := live_create henv hs h hfails
  failedCopy i p s' hfails := live_copy henv hs h hfails
  released hnone := by
    refine UInt64.toNat_inj.1 ?_
    rw [h.toNat_inUse, sum_eq_zero _ hnone, sum_eq_zero _ hnone]
    rfl

/-- Tables draw on one budget and nothing else does. Then after every run, whatever its actions
came to, the nodes and the buckets that are live in the budget are those that the tables hold. -/
theorem accounted_after (henv : env.Draws budget) {w : W} {limit : UInt64}
    (hw : budget w = .ofLimit limit) (acts : List (Action V K)) :
    ((ofWorld w : Store V W).after env acts).Balanced env budget := by
  obtain ⟨hsound, haccounted⟩ := accounted_run henv hw acts
  exact balanced henv hsound haccounted

/-- A copy takes its buckets and is refused its nodes. -/
theorem accounted_after_refused_copy :
    ((Policies.mk id Nat.toUInt64 (· == ·)).environment (Budget.supply 8 8)).Draws id
      ∧ id (Budget.ofLimit 109) = .ofLimit 109
      ∧ ((ofWorld (.ofLimit 109) : Store Nat Budget).after
          ((Policies.mk id Nat.toUInt64 (· == ·)).environment (Budget.supply 8 8))
          [.create 0, .on 0 (.insertAny 3), .on 0 (.insertAny 3), .copy 0]).Balanced
          ((Policies.mk id Nat.toUInt64 (· == ·)).environment (Budget.supply 8 8)) id
      ∧ ((ofWorld (.ofLimit 109) : Store Nat Budget).after
          ((Policies.mk id Nat.toUInt64 (· == ·)).environment (Budget.supply 8 8))
          [.create 0, .on 0 (.insertAny 3), .on 0 (.insertAny 3), .copy 0]).world
        = ⟨109, 2, 53, 1⟩ :=
  ⟨Budget.draws_supply _ 8 8, rfl, accounted_after (Budget.draws_supply _ 8 8) rfl _,
    by decide +kernel⟩

end Store

end SeparateChaining
