import SeparateChaining.Proofs.Chains.Moving
import SeparateChaining.Proofs.Contract
import SeparateChaining.Proofs.Ladder
import SeparateChaining.Table.Growth

/-!
# What growing leaves

A growth either leaves the table as it was, because it has room, because
the ladder ends or because storage was refused, or it leaves the table
`Grown`: on more buckets, with the same elements under the same keys.
While the nodes move, the storage of both arrays is granted; the array
that the table does not hold is the debt, first the new one and then the
old one. The growth is counted last, when nothing is owed any more, and
so it is not counted when the return of the old array panics.
-/

namespace SeparateChaining

variable {V K W : Type}

/-! ## Storage for buckets -/

namespace Contract.Uses

variable {C : Contract V K W} {env : Environment V K W} {d : Debt} {t : Table V}

theorem fitBuckets (henv : C.Obeyed env) (n : Nat) :
    C.Uses d t (env.fitBuckets n) fun m d' => d' = d ∧ m = Ladder.fit n := by
  unfold Supply.fitBuckets
  have hnotice : C.Uses d t ((Ladder.notice? n).forM env.notice) fun _ d' => d' = d := by
    cases Ladder.notice? n with
    | none => exact pure rfl
    | some notice => exact Uses.notice henv notice
  exact hnotice.bind fun _ d' hd => pure ⟨hd, rfl⟩

/-- An array of buckets is granted in full, and then owed, or not at all. -/
theorem allocateBuckets (henv : C.Obeyed env) {n : Nat} (hn : n ≤ Ladder.top) :
    C.Uses d t (env.allocateBuckets n) fun r d' => match r with
      | .ok b => d' = d.add .bucket n ∧ b = .replicate n
      | .error e => d' = d ∧ C.refuses e := by
  unfold Supply.allocateBuckets
  rw [if_neg (Nat.not_lt.2 (Ladder.linkBytes_le hn))]
  refine (request henv .bucket n).bind ?_
  intro r d' hr
  cases r with
  | error e => exact pure hr
  | ok u =>
      obtain rfl := hr
      refine (reserveBytes henv _).bind ?_
      intro reserved d' hreserved
      obtain ⟨rfl, hrefused⟩ := hreserved
      cases reserved with
      | true => exact pure ⟨rfl, rfl⟩
      | false =>
          refine (deallocate henv .bucket n).bind ?_
          intro _ d' hd
          exact pure ⟨hd, hrefused rfl _⟩

theorem releaseBuckets (henv : C.Obeyed env) {b : Buckets} (hclear : b.isClear = true)
    (hpos : 0 < b.size) :
    C.Uses (d.add .bucket b.size) t (env.releaseBuckets b) fun _ d' => d' = d := by
  unfold Supply.releaseBuckets
  rw [hclear, Bool.not_true, if_neg Bool.false_ne_true, if_neg (Nat.ne_of_gt hpos)]
  exact deallocate henv .bucket b.size

end Contract.Uses

/-! ## Growth -/

namespace Table

/-- The table `t'` is what growing `t` to `n` buckets leaves, whether or not it was counted. -/
structure Grown (t : Table V) (n : Nat) (t' : Table V) : Prop where
  chains : t.chains.Regrown n t'.chains
  id : t'.id = t.id
  growths : t'.growths = t.growths ∨ t'.growths = t.growths + 1
  fence : t'.fence = t.fence

/-- The table has room: it is as it was, or it has grown to more buckets. -/
def Widened (t t' : Table V) : Prop := t' = t ∨ ∃ n, t.bucketCount < n ∧ t.Grown n t'

theorem Grown.size {t t' : Table V} {n : Nat} (h : t.Grown n t') : t'.size = t.size := by
  refine Arena.size_congr ?_
  intro k
  have hk := congrArg Option.isSome (h.chains.element? k)
  rwa [Chains.element?, Chains.element?, Option.isSome_map, Option.isSome_map] at hk

theorem Widened.size {t t' : Table V} (h : t.Widened t') : t'.size = t.size := by
  rcases h with rfl | ⟨n, -, hgrown⟩
  · rfl
  · exact hgrown.size

theorem Widened.wellFormed {t t' : Table V} (h : t.Widened t') (hwf : t.chains.WellFormed) :
    t'.chains.WellFormed := by
  rcases h with rfl | ⟨n, -, hgrown⟩
  · exact hwf
  · exact hgrown.chains.arranged.wellFormed

theorem Widened.fence {t t' : Table V} (h : t.Widened t') : t'.fence = t.fence := by
  rcases h with rfl | ⟨n, -, hgrown⟩
  · rfl
  · exact hgrown.fence

theorem Widened.element? {t t' : Table V} (h : t.Widened t') (k : ArenaKey) :
    t'.chains.element? k = t.chains.element? k := by
  rcases h with rfl | ⟨n, -, hgrown⟩
  · rfl
  · exact hgrown.chains.element? k

/-- Room for `n` elements, one to a bucket, as far as the ladder goes. -/
def HasRoom (t : Table V) (n : Nat) : Prop := n ≤ t.bucketCount ∨ Ladder.top ≤ t.bucketCount

/-- The table has to grow to have room for `hint` elements, and can. -/
def MustGrow (t : Table V) (hint : Nat) : Prop :=
  t.bucketCount < hint ∧ t.bucketCount < Ladder.top

theorem MustGrow.lt_fit {t : Table V} {hint : Nat} (h : t.MustGrow hint) :
    t.bucketCount < Ladder.fit hint :=
  (Ladder.lt_fit_iff h.1).2 h.2

theorem mustGrow_iff {t : Table V} {hint : Nat} :
    t.MustGrow hint ↔ ¬(hint ≤ t.bucketCount ∨ Ladder.fit hint ≤ t.bucketCount) := by
  constructor
  · intro h hfits
    exact hfits.elim (Nat.not_le.2 h.1) (Nat.not_le.2 h.lt_fit)
  · intro h
    obtain ⟨hshort, hfit⟩ := not_or.1 h
    have hlt := Nat.lt_of_not_le hshort
    exact ⟨hlt, (Ladder.lt_fit_iff hlt).1 (Nat.lt_of_not_le hfit)⟩

/-- The table moved to `n` buckets. The move is not counted yet. -/
def moved (t : Table V) (n : Nat) : Table V :=
  match t.moveTo (.replicate n) with
  | .ok (_, t') => t'
  | .error _ => t

/-- The table once it was given room for `hint` elements, as far as the ladder goes. -/
def roomFor (t : Table V) (hint : Nat) : Table V :=
  if hint ≤ t.bucketCount ∨ Ladder.fit hint ≤ t.bucketCount then t
  else (t.moved (Ladder.fit hint)).counted

theorem moveTo_fencedBy {t t' : Table V} {b old : Buckets} (h : t.moveTo b = .ok (old, t'))
    (f : Option Operation) : (t.fencedBy f).moveTo b = .ok (old, t'.fencedBy f) := by
  have hchains : (t.fencedBy f).chains.moveTo b = t.chains.moveTo b := rfl
  rw [moveTo] at h ⊢
  rw [hchains]
  cases hmove : t.chains.moveTo b with
  | ok r =>
      simp only [hmove] at h ⊢
      cases h
      rfl
  | error p =>
      simp only [hmove] at h
      cases h

theorem moveTo_replicate {t : Table V} (hwf : t.chains.WellFormed) {n : Nat} (hn : 0 < n) :
    ∃ old, t.moveTo (.replicate n) = .ok (old, t.moved n) ∧ t.Grown n (t.moved n)
      ∧ old.isClear = true ∧ old.size = t.bucketCount := by
  obtain ⟨c', old, hmove, hgrown, hclear, hsize⟩ := hwf.moveTo hn
  have hrun : t.moveTo (.replicate n) = .ok (old, { t with chains := c' }) := by
    rw [moveTo, hmove]
  have hmoved : t.moved n = { t with chains := c' } := by rw [moved, hrun]
  refine ⟨old, ?_, ?_, hclear, hsize⟩
  · rw [hrun, hmoved]
  · rw [hmoved]
    exact ⟨hgrown, rfl, Or.inl rfl, rfl⟩

theorem grown_moved {t : Table V} (hwf : t.chains.WellFormed) {n : Nat} (hn : 0 < n) :
    t.Grown n (t.moved n) := by
  obtain ⟨-, -, hgrown, -⟩ := moveTo_replicate hwf hn
  exact hgrown

theorem growths_moved (t : Table V) (n : Nat) : (t.moved n).growths = t.growths := by
  unfold moved moveTo
  cases t.chains.moveTo (.replicate n) with
  | ok r => rfl
  | error p => rfl

theorem grown_counted {t : Table V} (hwf : t.chains.WellFormed) {n : Nat} (hn : 0 < n) :
    t.Grown n (t.moved n).counted := by
  have hgrown := grown_moved hwf hn
  exact ⟨hgrown.chains, hgrown.id, Or.inr (congrArg (· + 1) (growths_moved t n)), hgrown.fence⟩

theorem widened_roomFor {t : Table V} (hwf : t.chains.WellFormed) (hint : Nat) :
    t.Widened (t.roomFor hint) := by
  unfold roomFor
  split
  · exact Or.inl rfl
  · rename_i hnot
    exact Or.inr ⟨_, Nat.lt_of_not_le fun hle => hnot (Or.inr hle),
      grown_counted hwf (Ladder.bounds_fit hint).1⟩

theorem roomFor_of_mustGrow {t : Table V} {hint : Nat} (h : t.MustGrow hint) :
    t.roomFor hint = (t.moved (Ladder.fit hint)).counted :=
  if_neg (mustGrow_iff.1 h)

theorem hasRoom_roomFor {t : Table V} (hwf : t.chains.WellFormed) (hint : Nat) :
    (t.roomFor hint).HasRoom hint := by
  unfold roomFor
  split
  · rename_i hstays
    rcases hstays with hle | hfit
    · exact Or.inl hle
    · -- the ladder ends below, or `fit` reaches
      rcases Ladder.le_fit_or hint with hle | htop
      · exact Or.inl (Nat.le_trans hle hfit)
      · exact Or.inr (htop ▸ hfit)
  · have hcount : (t.moved (Ladder.fit hint)).counted.bucketCount = Ladder.fit hint :=
      (grown_counted hwf (Ladder.bounds_fit hint).1).chains.bucketCount
    rw [HasRoom, hcount]
    rcases Ladder.le_fit_or hint with hle | htop
    · exact Or.inl hle
    · exact Or.inr (Nat.le_of_eq htop.symm)

end Table

/-- A growth to a rung passes the invariant from the time when the new buckets are owed to the time
when the old ones are, and once nothing is owed, to the time when it is counted. -/
structure Contract.Grows (C : Contract V K W) : Prop where
  moves : ∀ t n t' w, t.chains.WellFormed → n ∈ Ladder.rungs → t.bucketCount < n → t.Grown n t' →
    C.inv ((0 : Debt).add .bucket n) t w → C.inv ((0 : Debt).add .bucket t.bucketCount) t' w
  counts : ∀ t n t' w w', t.chains.WellFormed → n ∈ Ladder.rungs → t.bucketCount < n →
    t.Grown n t'.counted → C.inv ((0 : Debt).add .bucket n) t w → C.inv 0 t' w' →
    C.inv 0 t'.counted w'

/-- The growth of `t` to `n` buckets passes the invariant. -/
structure Contract.GrowsTo (C : Contract V K W) (t : Table V) (n : Nat) : Prop where
  moves : ∀ w, t.chains.WellFormed → t.bucketCount < n → C.inv ((0 : Debt).add .bucket n) t w →
    C.inv ((0 : Debt).add .bucket t.bucketCount) (t.moved n) w
  counts : ∀ w w', t.chains.WellFormed → t.bucketCount < n →
    C.inv ((0 : Debt).add .bucket n) t w → C.inv 0 (t.moved n) w' → C.inv 0 (t.moved n).counted w'

theorem Contract.Grows.to {C : Contract V K W} (h : C.Grows) (t : Table V) (hint : Nat) :
    C.GrowsTo t (Ladder.fit hint) where
  moves w hwf hmore hinv :=
    h.moves t _ _ w hwf (Ladder.fit_mem hint) hmore
      (Table.grown_moved hwf (Ladder.bounds_fit hint).1) hinv
  counts w w' hwf hmore hinv hinv' :=
    h.counts t _ _ w w' hwf (Ladder.fit_mem hint) hmore
      (Table.grown_counted hwf (Ladder.bounds_fit hint).1) hinv hinv'

/-- An invariant of tables alone has to hold of whatever a growth leaves. -/
theorem Contract.Grows.of_tables {C : Contract V K W} {I : Table V → Prop}
    (hC : ∀ d t w, C.inv d t w ↔ I t)
    (h : ∀ t n t', t.chains.WellFormed → n ∈ Ladder.rungs → t.bucketCount < n → t.Grown n t' →
      I t → I t') : C.Grows where
  moves t n t' w hwf hrung hmore hgrown hinv :=
    (hC _ _ w).2 (h t n t' hwf hrung hmore hgrown ((hC _ _ w).1 hinv))
  counts t n _ w w' hwf hrung hmore hgrown hinv _ :=
    (hC _ _ w').2 (h t n _ hwf hrung hmore hgrown ((hC _ _ w).1 hinv))

namespace Table

variable {C : Contract V K W} {env : Environment V K W} {f : Option Operation} {t : Table V}

open Contract

theorem keeps_growTo (henv : C.Obeyed env) {n : Nat} (hgrows : C.GrowsTo t n)
    (hn : n ≤ Ladder.top) (hmore : t.bucketCount < n) :
    C.Keeps f 0 t (growTo env n)
      (C.OrRefused (· = t) fun _ d t' => d = 0 ∧ t' = (t.moved n).counted) := by
  refine Keeps.of_wellFormed ?_
  intro hwf
  obtain ⟨old, hmove, hgrown, hclear, hsize⟩ := moveTo_replicate hwf (Nat.zero_lt_of_lt hmore)
  unfold growTo
  refine Keeps.bindWorld (Uses.allocateBuckets henv hn) ?_
  intro r d hr
  cases r with
  | error e =>
      obtain ⟨rfl, hrefused⟩ := hr
      exact Keeps.pure ⟨rfl, rfl, hrefused⟩
  | ok b =>
      obtain ⟨rfl, rfl⟩ := hr
      have hwf' := hgrown.chains.arranged.wellFormed
      -- counting relies on the invariant of the table before its nodes moved
      refine Keeps.of_inv fun w₀ hinv₀ => ?_
      refine Keeps.bindRead ?_
      refine Keeps.bindUpdate (moveTo_fencedBy hmove f) hwf'
        (fun w hinv => hgrows.moves w hwf hmore hinv) ?_
      rw [← hsize]
      refine Keeps.bindWorld (Uses.releaseBuckets henv hclear (hsize ▸ hwf.buckets_pos)) ?_
      intro _ d hd
      obtain rfl := hd
      have hcount : Table.counted ((t.moved n).fencedBy f) = (t.moved n).counted.fencedBy f := rfl
      refine Keeps.bindChange (congrArg (Prod.mk ()) hcount) hwf'
        (fun w hinv => hgrows.counts w₀ w hwf hmore hinv₀ hinv) ?_
      refine Keeps.bindRead ?_
      refine Keeps.bindWorld (Uses.notice henv _) ?_
      intro _ d hd
      obtain rfl := hd
      exact Keeps.pure ⟨rfl, rfl⟩

theorem keeps_rehash (henv : C.Obeyed env) {hint : Nat} (hgrows : C.GrowsTo t (Ladder.fit hint)) :
    C.Keeps none 0 t (rehash env hint)
      (C.OrRefused (· = t) fun _ d t' => d = 0 ∧ t' = t.roomFor hint) := by
  unfold rehash roomFor
  refine Keeps.bindRead ?_
  show C.Keeps none 0 t (if hint ≤ t.bucketCount then _ else _) _
  split
  · exact Keeps.pure ⟨rfl, (if_pos (Or.inl ‹_›)).symm⟩
  · refine Keeps.bindWorld (Uses.fitBuckets henv hint) ?_
    intro n d hn
    obtain ⟨rfl, rfl⟩ := hn
    show C.Keeps none 0 t (if Ladder.fit hint ≤ t.bucketCount then _ else _) _
    split
    · exact Keeps.pure ⟨rfl, (if_pos (Or.inr ‹_›)).symm⟩
    · have hmore : t.bucketCount < Ladder.fit hint := Nat.lt_of_not_le ‹_›
      rw [if_neg (not_or.2 ⟨‹_›, ‹_›⟩)]
      exact Keeps.fenced (keeps_growTo henv hgrows (Ladder.bounds_fit hint).2 hmore)

/-- A reservation for more elements than can be counted is refused before anything else. -/
theorem keeps_reserve (henv : C.Obeyed env) {additional : Nat}
    (hgrows : C.GrowsTo t (Ladder.fit (t.size + additional))) :
    C.Keeps none 0 t (reserve env additional) fun r d t' =>
      (countLimit ≤ t.size + additional ∧ r = .error .capacityOverflow ∧ d = 0 ∧ t' = t)
        ∨ C.OrRefused (· = t) (fun _ d t' => d = 0 ∧ t' = t.roomFor (t.size + additional))
          r d t' := by
  unfold reserve
  refine Keeps.bindRead ?_
  show C.Keeps none 0 t (if countLimit ≤ t.size + additional then _ else _) _
  split
  · exact Keeps.pure (Or.inl ⟨‹_›, rfl, rfl, rfl⟩)
  · exact (keeps_rehash henv hgrows).mono fun r d t' hr => Or.inr hr

theorem keeps_rehash! (henv : C.Obeyed env) {hint : Nat} (hgrows : C.GrowsTo t (Ladder.fit hint))
    (hrefusal : ∀ e, C.refuses e → C.panics (.allocationFailed e)) :
    C.Keeps none 0 t (rehash! env hint) fun _ d t' => d = 0 ∧ t' = t.roomFor hint :=
  (keeps_rehash henv hgrows).infallible fun e _ _ hr => ⟨hr.1, hrefusal e hr.2.2⟩

theorem keeps_reserve! (henv : C.Obeyed env) {additional : Nat}
    (hgrows : C.GrowsTo t (Ladder.fit (t.size + additional)))
    (hrefusal : ∀ e, C.refuses e → C.panics (.allocationFailed e))
    (hoverflow : countLimit ≤ t.size + additional →
      C.panics (.allocationFailed .capacityOverflow)) :
    C.Keeps none 0 t (reserve! env additional) fun _ d t' =>
      d = 0 ∧ t' = t.roomFor (t.size + additional) := by
  refine ((keeps_reserve henv hgrows).infallible fun e d t' hr => ?_).mono fun a d t' hr => ?_
  · rcases hr with ⟨hlimit, hr, rfl, -⟩ | hr
    · obtain rfl := Except.error.inj hr
      exact ⟨rfl, hoverflow hlimit⟩
    · exact ⟨hr.1, hrefusal e hr.2.2⟩
  · rcases hr with ⟨-, hr, -⟩ | hr
    · cases hr
    · exact hr

end Table

end SeparateChaining
