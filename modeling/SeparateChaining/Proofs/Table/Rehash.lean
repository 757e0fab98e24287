import SeparateChaining.Proofs.Table.Growth

/-!
# The course of a growth

A growth looks up the bucket count that fits, requests the new array,
moves the nodes, returns the old array and counts itself, in this order.
It can fail at the request, which is a refusal, and at the two places
where storage is returned, which is a panic. What it leaves depends on
nothing else, so the three are told apart here, each with the request or
the return that it comes of (`rehash_spec`).

The last of them leaves what no other operation leaves: a table that has
its new buckets and has not counted the growth (`GrowthCut.releasing`).
Cursors that were issued before it go on to be accepted.
-/

namespace SeparateChaining

variable {V K W : Type}

/-! ## Requests -/

namespace Supply

variable {sup : Supply W}

/-- In the world `w` the supply refuses `n` units of `b`, or it grants them and does not have the
memory behind them, if any is needed. -/
inductive Refuses (sup : Supply W) (w : W) (b : Block) (n : Nat) (memory : Option Nat)
    (cause : Nat) : AllocError → Prop
  | denied {e : AllocError} {w' : W} (run : sup.allocate b n w = (.error e, w')) :
      Refuses sup w b n memory cause e
  | unreserved {bytes : Nat} {w₁ w₂ : W} (granted : sup.allocate b n w = (.ok (), w₁))
      (needed : memory = some bytes) (short : sup.reserve bytes w₁ = (false, w₂)) :
      Refuses sup w b n memory cause (.outOfMemory cause)

/-- In the world `w` the supply refuses an array of `n` buckets. -/
def RefusesBuckets (sup : Supply W) (w : W) (n : Nat) (e : AllocError) : Prop :=
  sup.Refuses w .bucket n (some (n * linkBytes)) (n * linkBytes) e

/-- The world in which the bucket count for `n` elements is known. -/
def fitted (sup : Supply W) (n : Nat) (w : W) : W :=
  match Ladder.notice? n with
  | none => w
  | some notice => sup.report notice w

theorem fitBuckets_run (sup : Supply W) (n : Nat) (w : W) :
    sup.fitBuckets n w = .ok (Ladder.fit n) (sup.fitted n w) := by
  unfold fitBuckets fitted
  cases Ladder.notice? n with
  | none => rfl
  | some notice => rfl

/-- What a request for so many buckets comes to. -/
theorem allocateBuckets_eq (sup : Supply W) {n : Nat} (hn : n ≤ Ladder.top) (w : W) :
    sup.allocateBuckets n w =
      match sup.allocate .bucket n w with
      | (.error e, w₁) => .ok (.error e) w₁
      | (.ok (), w₁) =>
        match sup.reserve (n * linkBytes) w₁ with
        | (true, w₂) => .ok (.ok (.replicate n)) w₂
        | (false, w₂) =>
          match sup.deallocate .bucket n w₂ with
          | .ok () w₃ => .ok (.error (.outOfMemory (n * linkBytes))) w₃
          | .error p w₃ => .error p w₃ := by
  unfold allocateBuckets
  rw [if_neg (Nat.not_lt.2 (Ladder.linkBytes_le hn))]
  show EStateM.bind (sup.request .bucket n) _ w = _
  rw [EStateM.bind, request]
  rcases sup.allocate .bucket n w with ⟨e | u, w₁⟩
  · rfl
  · dsimp only
    show EStateM.bind (sup.reserveBytes (n * linkBytes)) _ w₁ = _
    rw [EStateM.bind, reserveBytes]
    rcases sup.reserve (n * linkBytes) w₁ with ⟨reserved, w₂⟩
    cases reserved with
    | true => rfl
    | false =>
        dsimp only
        show EStateM.bind (sup.deallocate .bucket n) _ w₂ = _
        rw [EStateM.bind]
        cases sup.deallocate .bucket n w₂ with
        | ok u w₃ => rfl
        | error p w₃ => rfl

theorem replicate_of_allocateBuckets {n : Nat} (hn : n ≤ Ladder.top) {w w' : W} {b : Buckets}
    (h : sup.allocateBuckets n w = .ok (.ok b) w') : b = .replicate n := by
  rw [allocateBuckets_eq sup hn] at h
  split at h
  · cases h
  · split at h
    · cases h
      rfl
    · split at h
      · cases h
      · cases h

/-- A request for buckets that is refused is one that the supply refuses. -/
theorem refuses_of_allocateBuckets {n : Nat} (hn : n ≤ Ladder.top) {w w' : W} {e : AllocError}
    (h : sup.allocateBuckets n w = .ok (.error e) w') : sup.RefusesBuckets w n e := by
  rw [allocateBuckets_eq sup hn] at h
  split at h
  · cases h
    exact .denied ‹_›
  · split at h
    · cases h
    · split at h
      · cases h
        exact .unreserved ‹_› rfl ‹_›
      · cases h

/-- A request for buckets panics only while the units go back. -/
theorem panics_of_allocateBuckets {n : Nat} (hn : n ≤ Ladder.top) {w w' : W} {p : Panic}
    (h : sup.allocateBuckets n w = .error p w') :
    ∃ w₁, sup.deallocate .bucket n w₁ = .error p w' := by
  rw [allocateBuckets_eq sup hn] at h
  split at h
  · cases h
  · split at h
    · cases h
    · split at h
      · cases h
      · cases h
        exact ⟨_, ‹_›⟩

theorem releaseBuckets_eq {b : Buckets} (hclear : b.isClear = true) (hpos : 0 < b.size) :
    sup.releaseBuckets b = sup.deallocate .bucket b.size := by
  unfold releaseBuckets
  rw [hclear, Bool.not_true, if_neg Bool.false_ne_true, if_neg (Nat.ne_of_gt hpos)]

end Supply

namespace Table

variable {env : Environment V K W} {t t' : Table V} {n hint : Nat} {w w₁ : W} {old : Buckets}

/-! ## The end of a growth -/

/-- What is left of a growth from `current` to `target` buckets once the nodes have left the array
`old`. -/
def finishGrowth (env : Environment V K W) (current target : Nat) (old : Buckets) :
    Op W V (Except AllocError Unit) := do
  .world (env.releaseBuckets old)
  .change fun t => ((), t.counted)
  let len ← .read (·.size)
  .world (env.notice (.grew current target len))
  return .ok ()

theorem finishGrowth_of_ok {w₂ : W} {u : Unit} (h : env.releaseBuckets old w₁ = .ok u w₂)
    (current target : Nat) :
    finishGrowth env current target old ⟨t, w₁⟩
      = .ok (.ok ()) ⟨t.counted, env.report (.grew current target t.size) w₂⟩ :=
  Op.run_bind_ok (Op.run_world_ok h)

theorem finishGrowth_of_error {w₂ : W} {p : Panic} (h : env.releaseBuckets old w₁ = .error p w₂)
    (current target : Nat) : finishGrowth env current target old ⟨t, w₁⟩ = .error p ⟨t, w₂⟩ :=
  Op.run_bind_error (Op.run_world_error h) _

/-- The end of a growth takes no notice of the fence. -/
theorem fenced_finishGrowth {op : Operation} {body : Op W V (Except AllocError Unit)}
    {current target : Nat} (hfence : t.fence = none) (hfence' : t'.fence = none)
    (h : body ⟨t.fencedBy (some op), w⟩
      = finishGrowth env current target old ⟨t'.fencedBy (some op), w₁⟩) :
    Op.fenced op body ⟨t, w⟩ = finishGrowth env current target old ⟨t', w₁⟩ := by
  have hdown : (t'.fencedBy (some op)).fencedBy none = t' := fencedBy_eq hfence'
  have hcounted : (t'.fencedBy (some op)).counted.fencedBy none = t'.counted :=
    congrArg counted hdown
  rw [← fencedBy_eq hfence]
  cases hrun : env.releaseBuckets old w₁ with
  | ok u w₂ =>
      rw [Op.run_fenced_ok (h.trans (finishGrowth_of_ok hrun ..)), finishGrowth_of_ok hrun,
        hcounted]
      rfl
  | error p w₂ =>
      rw [Op.run_fenced_error (h.trans (finishGrowth_of_error hrun ..)),
        finishGrowth_of_error hrun, hdown]

/-- Once new buckets are granted the nodes move, and only the end of the growth is left to do. -/
theorem growTo_of_granted {f : Option Operation} {b : Buckets}
    (hgrant : env.allocateBuckets n w = .ok (.ok b) w₁)
    (hmove : (t.fencedBy f).moveTo b = .ok (old, t'.fencedBy f)) :
    growTo env n ⟨t.fencedBy f, w⟩
      = finishGrowth env t.bucketCount n old ⟨t'.fencedBy f, w₁⟩ := by
  have hupdate : Op.update (fun u => u.moveTo b) (⟨t.fencedBy f, w₁⟩ : Running V W)
      = .ok old ⟨t'.fencedBy f, w₁⟩ := by
    rw [Op.update]
    simp only [hmove]
  unfold growTo
  rw [Op.run_bind_ok (Op.run_world_ok hgrant)]
  show (Op.read _ >>= _) _ = _
  rw [Op.run_read_bind, Op.run_bind_ok hupdate]
  rfl

/-! ## Making room -/

theorem rehash_of_fits (env : Environment V K W)
    (h : hint ≤ t.bucketCount ∨ Ladder.fit hint ≤ t.bucketCount) (w : W) :
    ∃ w', rehash env hint ⟨t, w⟩ = .ok (.ok ()) ⟨t, w'⟩ := by
  unfold rehash
  rw [Op.run_read_bind]
  show ∃ w', (if hint ≤ t.bucketCount then _ else _ : Op W V _) _ = _
  split
  · exact ⟨w, rfl⟩
  · refine ⟨env.fitted hint w, ?_⟩
    rw [Op.run_bind_ok (Op.run_world_ok (env.fitBuckets_run hint w)),
      if_pos (h.resolve_left ‹_›)]
    rfl

theorem rehash_of_mustGrow (env : Environment V K W) (h : t.MustGrow hint) (w : W) :
    rehash env hint ⟨t, w⟩
      = Op.fenced .rehash (growTo env (Ladder.fit hint)) ⟨t, env.fitted hint w⟩ := by
  unfold rehash
  rw [Op.run_read_bind]
  show (if hint ≤ t.bucketCount then _ else _ : Op W V _) _ = _
  rw [if_neg (Nat.not_le.2 h.1), Op.run_bind_ok (Op.run_world_ok (env.fitBuckets_run hint w)),
    if_neg (Nat.not_le.2 h.lt_fit)]

/-- A growth that is not granted leaves the table as it was. -/
theorem rehash_of_refused (hfence : t.fence = none) (h : t.MustGrow hint) {e : AllocError}
    (hgrant : env.allocateBuckets (Ladder.fit hint) (env.fitted hint w) = .ok (.error e) w₁) :
    rehash env hint ⟨t, w⟩ = .ok (.error e) ⟨t, w₁⟩ := by
  have hbody : growTo env (Ladder.fit hint) ⟨t.fencedBy (some .rehash), env.fitted hint w⟩
      = .ok (.error e) ⟨t.fencedBy (some .rehash), w₁⟩ :=
    Op.run_bind_ok (Op.run_world_ok hgrant)
  have hrun := Op.run_fenced_ok hbody
  rw [fencedBy_eq hfence] at hrun
  rw [rehash_of_mustGrow env h, hrun]
  exact congrArg (fun u => EStateM.Result.ok _ (Running.mk u w₁)) (fencedBy_eq (t := t) hfence)

theorem rehash_of_panic (hfence : t.fence = none) (h : t.MustGrow hint) {p : Panic}
    (hgrant : env.allocateBuckets (Ladder.fit hint) (env.fitted hint w) = .error p w₁) :
    rehash env hint ⟨t, w⟩ = .error p ⟨t, w₁⟩ := by
  have hbody : growTo env (Ladder.fit hint) ⟨t.fencedBy (some .rehash), env.fitted hint w⟩
      = .error p ⟨t.fencedBy (some .rehash), w₁⟩ :=
    Op.run_bind_error (Op.run_world_error hgrant) _
  have hrun := Op.run_fenced_error hbody
  rw [fencedBy_eq hfence] at hrun
  rw [rehash_of_mustGrow env h, hrun]
  exact congrArg (fun u => EStateM.Result.error _ (Running.mk u w₁)) (fencedBy_eq (t := t) hfence)

/-- A growth that is granted has moved the nodes, and has the old array left to return, which heads
no chain any more. -/
theorem rehash_of_granted (hwf : t.chains.WellFormed) (hfence : t.fence = none)
    (h : t.MustGrow hint) {b : Buckets}
    (hgrant : env.allocateBuckets (Ladder.fit hint) (env.fitted hint w) = .ok (.ok b) w₁) :
    ∃ old, t.moveTo (.replicate (Ladder.fit hint)) = .ok (old, t.moved (Ladder.fit hint))
      ∧ old.isClear = true ∧ old.size = t.bucketCount
      ∧ rehash env hint ⟨t, w⟩ = finishGrowth env t.bucketCount (Ladder.fit hint) old
          ⟨t.moved (Ladder.fit hint), w₁⟩ := by
  obtain rfl := Supply.replicate_of_allocateBuckets (Ladder.bounds_fit hint).2 hgrant
  obtain ⟨old, hmove, hgrown, hclear, hsize⟩ := moveTo_replicate hwf (Ladder.bounds_fit hint).1
  refine ⟨old, hmove, hclear, hsize, ?_⟩
  rw [rehash_of_mustGrow env h]
  exact fenced_finishGrowth hfence (hgrown.fence.trans hfence)
    (growTo_of_granted hgrant (moveTo_fencedBy hmove _))

/-! ## What it comes to -/

/-- In the world `w` the growth of `t` to room for `hint` elements is refused. -/
def RoomRefused (env : Environment V K W) (w : W) (t : Table V) (hint : Nat)
    (e : AllocError) : Prop :=
  t.MustGrow hint ∧ env.RefusesBuckets (env.fitted hint w) (Ladder.fit hint) e

/-- Where the growth of `t` to room for `hint` elements, begun in the world `w`, is cut short by a
panic. -/
inductive GrowthCut (env : Environment V K W) (w : W) (t : Table V) (hint : Nat)
    (p : Panic) : Table V → Prop
  /-- The new units were granted without the memory behind them, and went back. -/
  | refusing {w₁ w₂ : W} (due : t.MustGrow hint)
      (panics : env.deallocate .bucket (Ladder.fit hint) w₁ = .error p w₂)
      (run : rehash env hint ⟨t, w⟩ = .error p ⟨t, w₂⟩) : GrowthCut env w t hint p t
  /-- The nodes have moved, and the old units went back. The growth is not counted. -/
  | releasing {w₁ w₂ : W} (due : t.MustGrow hint)
      (panics : env.deallocate .bucket t.bucketCount w₁ = .error p w₂)
      (run : rehash env hint ⟨t, w⟩ = .error p ⟨t.moved (Ladder.fit hint), w₂⟩) :
      GrowthCut env w t hint p (t.moved (Ladder.fit hint))

/-- What making room comes to: always the same if it is granted, nothing if it is refused, and if it
is cut short, all of it but that it is counted. -/
theorem rehash_spec (hwf : t.chains.WellFormed) (hfence : t.fence = none)
    (env : Environment V K W) (hint : Nat) (w : W) :
    match rehash env hint ⟨t, w⟩ with
    | .ok (.ok ()) s => s.table = t.roomFor hint
    | .ok (.error e) s => s.table = t ∧ RoomRefused env w t hint e
    | .error p s => GrowthCut env w t hint p s.table := by
  by_cases hfits : hint ≤ t.bucketCount ∨ Ladder.fit hint ≤ t.bucketCount
  · obtain ⟨w', hrun⟩ := rehash_of_fits env hfits w
    rw [hrun]
    exact (if_pos hfits).symm
  · have hdue := mustGrow_iff.2 hfits
    have htop := (Ladder.bounds_fit hint).2
    rcases hgrant : env.allocateBuckets (Ladder.fit hint) (env.fitted hint w) with
      ⟨e | b, w₁⟩ | ⟨p, w₁⟩
    · rw [rehash_of_refused hfence hdue hgrant]
      exact ⟨rfl, hdue, Supply.refuses_of_allocateBuckets htop hgrant⟩
    · obtain ⟨old, -, hclear, hsize, hrun⟩ := rehash_of_granted hwf hfence hdue hgrant
      have hrelease : env.releaseBuckets old = env.deallocate .bucket t.bucketCount := by
        rw [Supply.releaseBuckets_eq hclear (hsize ▸ hwf.buckets_pos), hsize]
      cases hback : env.deallocate .bucket t.bucketCount w₁ with
      | ok u w₂ =>
          rw [hrun, finishGrowth_of_ok ((congrFun hrelease w₁).trans hback)]
          exact (roomFor_of_mustGrow hdue).symm
      | error p w₂ =>
          have hcut := finishGrowth_of_error (t := t.moved (Ladder.fit hint))
            ((congrFun hrelease w₁).trans hback) t.bucketCount (Ladder.fit hint)
          rw [← hrun] at hcut
          rw [hcut]
          exact .releasing hdue hback hcut
    · obtain ⟨w₀, hback⟩ := Supply.panics_of_allocateBuckets htop hgrant
      have hcut := rehash_of_panic hfence hdue hgrant
      rw [hcut]
      exact .refusing hdue hback hcut

theorem GrowthCut.eq_or {p : Panic} (h : GrowthCut env w t hint p t') :
    t' = t ∨ t.MustGrow hint ∧ t' = t.moved (Ladder.fit hint)
      ∧ ∃ w₁ w₂, env.deallocate .bucket t.bucketCount w₁ = .error p w₂ := by
  cases h with
  | refusing due panics run => exact Or.inl rfl
  | releasing due panics run => exact Or.inr ⟨due, rfl, _, _, panics⟩

theorem bucketCount_moved (hwf : t.chains.WellFormed) (hint : Nat) :
    (t.moved (Ladder.fit hint)).bucketCount = Ladder.fit hint :=
  (grown_moved hwf (Ladder.bounds_fit hint).1).chains.bucketCount

theorem GrowthCut.widened {p : Panic} (h : GrowthCut env w t hint p t')
    (hwf : t.chains.WellFormed) : t.Widened t' := by
  cases h with
  | refusing due panics run => exact Or.inl rfl
  | releasing due panics run =>
      exact Or.inr ⟨_, due.lt_fit, grown_moved hwf (Ladder.bounds_fit hint).1⟩

/-- Whatever making room comes to, the table that is left has the same elements. -/
theorem exists_leaves_rehash (hwf : t.chains.WellFormed) (hfence : t.fence = none)
    (env : Environment V K W) (hint : Nat) (w : W) :
    ∃ m, t.Widened m ∧ Op.Leaves m (rehash env hint ⟨t, w⟩) := by
  have hspec := rehash_spec hwf hfence env hint w
  rcases hrun : rehash env hint ⟨t, w⟩ with ⟨e | u, s⟩ | ⟨p, s⟩
  · rw [hrun] at hspec
    exact ⟨s.table, Or.inl hspec.1, rfl⟩
  · rw [hrun] at hspec
    have hroom : s.table = t.roomFor hint := hspec
    exact ⟨s.table, hroom ▸ widened_roomFor hwf hint, rfl⟩
  · rw [hrun] at hspec
    exact ⟨s.table, hspec.widened hwf, rfl⟩

end Table

end SeparateChaining
