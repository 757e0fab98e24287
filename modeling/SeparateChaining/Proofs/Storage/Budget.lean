import SeparateChaining.Proofs.Contract
import SeparateChaining.Storage.Budget

/-!
# What a budget counts

`b.Counts d` says that exactly the units of `d` are live in `b`, and
that they stay within its limit. A request that is granted adds its
units, one that is refused adds none, and a return of units that are
live takes them away: the 64-bit counters never wrap, because what is
live is bounded by the limit. `b.Sets b' block m` is one such change: it
names the one counter that moves and says that nothing else does.
-/

namespace SeparateChaining.Budget

variable {b : Budget} {d : Debt}

/-- The units of `d` are live, and are within the limit. -/
structure Counts (b : Budget) (d : Debt) : Prop where
  nodes : b.liveNodes.toNat = d.nodes
  buckets : b.liveBuckets.toNat = d.buckets
  bounded : d.nodes + d.buckets ≤ b.limit.toNat

theorem counts_ofLimit (limit : UInt64) : (ofLimit limit).Counts 0 where
  nodes := rfl
  buckets := rfl
  bounded := Nat.zero_le _

theorem Counts.toNat_inUse (h : b.Counts d) : b.inUse.toNat = d.nodes + d.buckets := by
  have hlimit := b.limit.toNat_lt
  have hbounded := h.bounded
  rw [inUse, UInt64.toNat_add, h.nodes, h.buckets]
  exact Nat.mod_eq_of_lt (by omega)

theorem Counts.toNat_available (h : b.Counts d) :
    b.available.toNat = b.limit.toNat - (d.nodes + d.buckets) := by
  have hle : b.inUse ≤ b.limit := by
    rw [UInt64.le_iff_toNat_le, h.toNat_inUse]
    exact h.bounded
  rw [available, if_pos hle, UInt64.toNat_sub_of_le _ _ hle, h.toNat_inUse]

theorem toNat_toUInt64 {limit : UInt64} {n : Nat} (h : n ≤ limit.toNat) :
    n.toUInt64.toNat = n := by
  have hlimit := limit.toNat_lt
  exact Nat.mod_eq_of_lt (by omega)

/-! ## Setting one counter -/

/-- From `b` to `b'` only the units of `block` that are live change, and `m` of them are live. -/
structure Sets (b b' : Budget) (block : Block) (m : Nat) : Prop where
  live : (b'.live block).toNat = m
  others : ∀ other, other ≠ block → b'.live other = b.live other
  limit : b'.limit = b.limit
  refusals : b'.refusals = b.refusals

theorem sets_setLive (b : Budget) (block : Block) (u : UInt64) :
    b.Sets (b.setLive block u) block u.toNat := by
  cases block with
  | node => exact ⟨rfl, fun other hother => by cases other <;> trivial, rfl, rfl⟩
  | bucket => exact ⟨rfl, fun other hother => by cases other <;> trivial, rfl, rfl⟩

theorem Sets.live_eq {b' : Budget} {block : Block} {m : Nat} (h : b.Sets b' block m)
    (block' : Block) :
    (b'.live block').toNat = if block = block' then m else (b.live block').toNat := by
  split
  · subst block'
    exact h.live
  · rw [h.others block' (Ne.symm ‹_›)]

theorem live_le (b : Budget) (block : Block) :
    (b.live block).toNat ≤ b.liveNodes.toNat + b.liveBuckets.toNat := by
  cases block with
  | node => exact Nat.le_add_right ..
  | bucket => exact Nat.le_add_left ..

/-- Units that fit within the limit are added without a carry. -/
theorem sets_add {n : Nat} (block : Block)
    (hn : b.liveNodes.toNat + b.liveBuckets.toNat + n ≤ b.limit.toNat) :
    b.Sets (b.setLive block (b.live block + n.toUInt64)) block ((b.live block).toNat + n) := by
  have hlimit := b.limit.toNat_lt
  have hlive := b.live_le block
  have hsum : (b.live block + n.toUInt64).toNat = (b.live block).toNat + n := by
    rw [UInt64.toNat_add, toNat_toUInt64 (show n ≤ b.limit.toNat by omega)]
    exact Nat.mod_eq_of_lt (by omega)
  rw [← hsum]
  exact b.sets_setLive block _

/-- Units that are live are taken away without a borrow. -/
theorem sets_sub {n : Nat} {block : Block} (hn : n ≤ (b.live block).toNat) :
    b.Sets (b.setLive block (b.live block - n.toUInt64)) block ((b.live block).toNat - n) := by
  have hunits : n.toUInt64.toNat = n := toNat_toUInt64 hn
  have hle : n.toUInt64 ≤ b.live block := by
    rw [UInt64.le_iff_toNat_le, hunits]
    exact hn
  have hdiff : (b.live block - n.toUInt64).toNat = (b.live block).toNat - n := by
    rw [UInt64.toNat_sub_of_le _ _ hle, hunits]
  rw [← hdiff]
  exact b.sets_setLive block _

theorem Counts.allocate (h : b.Counts d) (block : Block) (n : Nat) :
    match b.allocate block n with
    | (.ok (), b') => b'.Counts (d.add block n)
    | (.error _, b') => b'.Counts d := by
  rw [Budget.allocate]
  by_cases hle : n ≤ b.available.toNat
  · rw [if_pos hle]
    rw [h.toNat_available] at hle
    have hbounded := h.bounded
    have hfits : b.liveNodes.toNat + b.liveBuckets.toNat + n ≤ b.limit.toNat := by
      rw [h.nodes, h.buckets]
      omega
    have hsets := sets_add block hfits
    cases block with
    | node =>
        refine ⟨hsets.live.trans (congrArg (· + n) h.nodes), h.buckets, ?_⟩
        show d.nodes + n + d.buckets ≤ b.limit.toNat
        omega
    | bucket =>
        refine ⟨h.nodes, hsets.live.trans (congrArg (· + n) h.buckets), ?_⟩
        show d.nodes + (d.buckets + n) ≤ b.limit.toNat
        omega
  · rw [if_neg hle]
    exact ⟨h.nodes, h.buckets, h.bounded⟩

theorem Counts.deallocate {block : Block} {n : Nat} (h : b.Counts (d.add block n)) :
    ∃ b', b.deallocate block n = .ok b' ∧ b'.Counts d := by
  cases block with
  | node =>
      have hnodes : (b.live .node).toNat = d.nodes + n := h.nodes
      have hbounded : d.nodes + n + d.buckets ≤ b.limit.toNat := h.bounded
      have hle : n ≤ (b.live .node).toNat := by omega
      have hleft : (b.live .node).toNat - n = d.nodes := by omega
      refine ⟨_, if_pos hle, (sets_sub hle).live.trans hleft, h.buckets, ?_⟩
      show d.nodes + d.buckets ≤ b.limit.toNat
      omega
  | bucket =>
      have hbuckets : (b.live .bucket).toNat = d.buckets + n := h.buckets
      have hbounded : d.nodes + (d.buckets + n) ≤ b.limit.toNat := h.bounded
      have hle : n ≤ (b.live .bucket).toNat := by omega
      have hleft : (b.live .bucket).toNat - n = d.buckets := by omega
      refine ⟨_, if_pos hle, h.nodes, (sets_sub hle).live.trans hleft, ?_⟩
      show d.nodes + d.buckets ≤ b.limit.toNat
      omega

theorem Counts.live_eq {b' : Budget} (h : b.Counts d) (h' : b'.Counts d) (block : Block) :
    b'.live block = b.live block := by
  cases block with
  | node => exact UInt64.toNat_inj.1 (h'.nodes.trans h.nodes.symm)
  | bucket => exact UInt64.toNat_inj.1 (h'.buckets.trans h.buckets.symm)

/-! ## A budget as a supply -/

/-- A supply that is a budget and has all the memory there is. -/
def supply (nodeBytes slotBytes : Nat) : Supply Budget where
  allocate block n b := b.allocate block n
  deallocate block n := fun b => match b.deallocate block n with
    | .ok b' => .ok () b'
    | .error p => .error p b
  reserve _ b := (true, b)
  report _ b := b
  nodeBytes
  slotBytes

theorem supply_deallocate_ok {b' : Budget} {block : Block} {n nodeBytes slotBytes : Nat}
    (h : b.deallocate block n = .ok b') :
    (supply nodeBytes slotBytes).deallocate block n b = .ok () b' := by
  simp only [supply, h]

theorem supply_deallocate_error {p : Panic} {block : Block} {n nodeBytes slotBytes : Nat}
    (h : b.deallocate block n = .error p) :
    (supply nodeBytes slotBytes).deallocate block n b = .error p b := by
  simp only [supply, h]

end SeparateChaining.Budget
