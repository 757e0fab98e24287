import SeparateChaining.Proofs.Accounting
import SeparateChaining.Proofs.Bag
import SeparateChaining.Proofs.Contract.Exact

/-!
# What operations spend

Where the policies are functions, memory is not short and the only
other source of refusals is a budget, an operation is determined by the
table and by what the budget has counted. `Spends budget op t b a t' b'`
says so: run on `t` in any world whose budget is `b`, the operation
answers `a` and leaves `t'` and the budget `b'`. The laws of `Spends`
follow the operations of `Op`, and the lemmas about operations are their
runs, read off one after the other: a growth, the seeking of a key, the
grant of a node, an insertion.
-/

namespace SeparateChaining

variable {V K W α β : Type}

/-! ## Environments of which only the budget is short -/

/-- Storage is drawn from a budget, memory is never short, and foreign code answers as the policies
say. -/
structure Environment.Rations (env : Environment V K W) (budget : W → Budget) (p : Policies V K) :
    Prop where
  draws : env.Draws budget
  memory : ∀ bytes w, (env.reserve bytes w).1 = true
  extract : ∀ seen v w, ∃ w', env.extract seen v w = .ok (p.extract v) w'
  hash : ∀ seen k w, ∃ w', env.hash seen k w = .ok (p.hash k) w'
  keyEq : ∀ seen a b w, ∃ w', env.keyEq seen a b w = .ok (p.keyEq a b) w'
  dispose : ∀ seen v w, ∃ w', env.dispose seen v w = .ok () w'

theorem Policies.rations_budget (p : Policies V K) (nodeBytes slotBytes : Nat) :
    (p.environment (Budget.supply nodeBytes slotBytes)).Rations id p where
  draws := Budget.draws_supply p nodeBytes slotBytes
  memory _ _ := rfl
  extract _ _ w := ⟨w, rfl⟩
  hash _ _ w := ⟨w, rfl⟩
  keyEq _ _ _ w := ⟨w, rfl⟩
  dispose _ _ w := ⟨w, rfl⟩

namespace Budget

variable {b b' : Budget} {block : Block} {n : Nat}

/-- The budget with one more refusal. -/
def refuse (b : Budget) : Budget := { b with refusals := b.refusals + 1 }

/-- The budget with `n` more units of `block` live. -/
def grant (b : Budget) (block : Block) (n : Nat) : Budget :=
  b.setLive block (b.live block + n.toUInt64)

theorem allocate_of_le (h : n ≤ b.available.toNat) :
    b.allocate block n = (.ok (), b.grant block n) := if_pos h

theorem allocate_of_lt (h : b.available.toNat < n) :
    b.allocate block n = (.error (.exhausted n b.available.toNat), b.refuse) :=
  if_neg (Nat.not_le.2 h)

theorem Counts.grant {d : Debt} (hcounts : b.Counts d) (h : n ≤ b.available.toNat) :
    (b.grant block n).Counts (d.add block n) := by
  have hgrant := hcounts.allocate block n
  rw [allocate_of_le h] at hgrant
  exact hgrant

@[simp] theorem limit_setLive (u : UInt64) : (b.setLive block u).limit = b.limit := by
  cases block with
  | node => rfl
  | bucket => rfl

theorem limit_deallocate (h : b.deallocate block n = .ok b') : b'.limit = b.limit := by
  unfold deallocate at h
  split at h
  · cases h
    exact limit_setLive _
  · cases h

end Budget

/-! ## The relation -/

/-- In any world whose budget is `b`, an act on the world answers `a` and leaves the budget `b'`. -/
def Pays (budget : W → Budget) (act : EStateM Panic W α) (b : Budget) (a : α) (b' : Budget) :
    Prop :=
  ∀ w, budget w = b → ∃ w', act w = .ok a w' ∧ budget w' = b'

/-- On the table `t`, in any world whose budget is `b`, the operation answers `a` and leaves the
table `t'` and the budget `b'`. -/
def Spends (budget : W → Budget) (op : Op W V α) (t : Table V) (b : Budget) (a : α)
    (t' : Table V) (b' : Budget) : Prop :=
  ∀ w, budget w = b → ∃ w', op ⟨t, w⟩ = .ok a ⟨t', w'⟩ ∧ budget w' = b'

variable {budget : W → Budget}

namespace Pays

variable {b b' b'' : Budget} {a : α} {c : β}

theorem pure : Pays budget (Pure.pure a : EStateM Panic W α) b a b := fun w hw => ⟨w, rfl, hw⟩

theorem bind {act : EStateM Panic W α} {g : α → EStateM Panic W β}
    (hact : Pays budget act b a b') (hg : Pays budget (g a) b' c b'') :
    Pays budget (act >>= g) b c b'' := by
  intro w hw
  obtain ⟨w', hrun, hw'⟩ := hact w hw
  obtain ⟨w'', hrest, hw''⟩ := hg w' hw'
  refine ⟨w'', ?_, hw''⟩
  show EStateM.bind act g w = _
  rw [EStateM.bind, hrun]
  exact hrest

end Pays

namespace Spends

variable {t t' t'' : Table V} {b b' b'' : Budget} {a : α} {c : β}

theorem pure : Spends budget (Pure.pure a : Op W V α) t b a t b := fun w hw => ⟨w, rfl, hw⟩

theorem bind {op : Op W V α} {g : α → Op W V β} (hop : Spends budget op t b a t' b')
    (hg : Spends budget (g a) t' b' c t'' b'') : Spends budget (op >>= g) t b c t'' b'' := by
  intro w hw
  obtain ⟨w', hrun, hw'⟩ := hop w hw
  obtain ⟨w'', hrest, hw''⟩ := hg w' hw'
  exact ⟨w'', (Op.run_bind_ok hrun).trans hrest, hw''⟩

theorem read (h : Table V → α) : Spends budget (Op.read h : Op W V α) t b (h t) t b :=
  fun w hw => ⟨w, rfl, hw⟩

theorem change (h : Table V → α × Table V) :
    Spends budget (Op.change h : Op W V α) t b (h t).1 (h t).2 b :=
  fun w hw => ⟨w, rfl, hw⟩

theorem update {h : Table V → Except Panic (α × Table V)} (ht : h t = .ok (a, t')) :
    Spends budget (Op.update h : Op W V α) t b a t' b := by
  intro w hw
  refine ⟨w, ?_, hw⟩
  rw [Op.update]
  simp only [ht]

theorem world {act : EStateM Panic W α} (h : Pays budget act b a b') :
    Spends budget (Op.world act) t b a t b' := by
  intro w hw
  obtain ⟨w', hrun, hw'⟩ := h w hw
  exact ⟨w', Op.run_world_ok hrun, hw'⟩

theorem onPanic {op : Op W V α} (h : Spends budget op t b a t' b') (cleanup : Table V → W → W) :
    Spends budget (op.onPanic cleanup) t b a t' b' := by
  intro w hw
  obtain ⟨w', hrun, hw'⟩ := h w hw
  exact ⟨w', Op.run_onPanic_ok hrun cleanup, hw'⟩

theorem fenced {op : Operation} {body : Op W V α}
    (h : Spends budget body (t.fencedBy (some op)) b a (t'.fencedBy (some op)) b')
    (hfence : t.fence = none) (hfence' : t'.fence = none) :
    Spends budget (Op.fenced op body) t b a t' b' := by
  intro w hw
  obtain ⟨w', hrun, hw'⟩ := h w hw
  have hrun' := Op.run_fenced_ok hrun
  have hdown : (t'.fencedBy (some op)).fencedBy none = t' := Table.fencedBy_eq hfence'
  rw [Table.fencedBy_eq hfence] at hrun'
  refine ⟨w', hrun'.trans ?_, hw'⟩
  simp only [hdown]

end Spends

/-! ## Storage -/

namespace Environment.Rations

variable {env : Environment V K W} {p : Policies V K} {b b' : Budget} {block : Block} {n : Nat}

theorem pays_request (henv : env.Rations budget p) :
    Pays budget (env.request block n) b (b.allocate block n).1 (b.allocate block n).2 := by
  rintro w rfl
  have hgrant := henv.draws.allocate block n w
  rw [← hgrant]
  exact ⟨_, rfl, rfl⟩

theorem pays_granted (henv : env.Rations budget p) (h : n ≤ b.available.toNat) :
    Pays budget (env.request block n) b (.ok ()) (b.grant block n) := by
  have hpays : Pays budget (env.request block n) b _ _ := henv.pays_request
  rwa [Budget.allocate_of_le h] at hpays

theorem pays_refused (henv : env.Rations budget p) (h : b.available.toNat < n) :
    Pays budget (env.request block n) b (.error (.exhausted n b.available.toNat)) b.refuse := by
  have hpays : Pays budget (env.request block n) b _ _ := henv.pays_request
  rwa [Budget.allocate_of_lt h] at hpays

theorem pays_deallocate (henv : env.Rations budget p) (h : b.deallocate block n = .ok b') :
    Pays budget (env.deallocate block n) b () b' := by
  rintro w rfl
  have hreturn := henv.draws.deallocate block n w
  rw [h] at hreturn
  obtain ⟨w', hrun, rfl⟩ := hreturn
  exact ⟨w', hrun, rfl⟩

theorem pays_reserveBytes (henv : env.Rations budget p) (bytes : Nat) :
    Pays budget (env.reserveBytes bytes) b true b := by
  rintro w rfl
  refine ⟨(env.reserve bytes w).2, ?_, henv.draws.reserve bytes w⟩
  rw [← henv.memory bytes w]
  rfl

theorem pays_notice (henv : env.Rations budget p) (notice : Notice) :
    Pays budget (env.notice notice) b () b := by
  rintro w rfl
  exact ⟨_, rfl, henv.draws.report notice w⟩

theorem pays_fitBuckets (henv : env.Rations budget p) (n : Nat) :
    Pays budget (env.fitBuckets n) b (Ladder.fit n) b := by
  have hnotice : Pays budget ((Ladder.notice? n).forM env.notice) b () b := by
    cases Ladder.notice? n with
    | none => exact .pure
    | some notice => exact henv.pays_notice notice
  exact hnotice.bind .pure

theorem pays_allocateBuckets (henv : env.Rations budget p) (hn : n ≤ Ladder.top)
    (h : n ≤ b.available.toNat) :
    Pays budget (env.allocateBuckets n) b (.ok (.replicate n)) (b.grant .bucket n) := by
  unfold Supply.allocateBuckets
  rw [if_neg (Nat.not_lt.2 (Ladder.linkBytes_le hn))]
  exact (henv.pays_granted h).bind ((henv.pays_reserveBytes _).bind .pure)

theorem pays_allocateBuckets_refused (henv : env.Rations budget p) (hn : n ≤ Ladder.top)
    (h : b.available.toNat < n) :
    Pays budget (env.allocateBuckets n) b (.error (.exhausted n b.available.toNat)) b.refuse := by
  unfold Supply.allocateBuckets
  rw [if_neg (Nat.not_lt.2 (Ladder.linkBytes_le hn))]
  exact (henv.pays_refused h).bind .pure

theorem pays_releaseBuckets (henv : env.Rations budget p) {buckets : Buckets}
    (hclear : buckets.isClear = true) (hpos : 0 < buckets.size)
    (h : b.deallocate .bucket buckets.size = .ok b') :
    Pays budget (env.releaseBuckets buckets) b () b' := by
  unfold Supply.releaseBuckets
  rw [hclear, Bool.not_true, if_neg Bool.false_ne_true, if_neg (Nat.ne_of_gt hpos)]
  exact henv.pays_deallocate h

end Environment.Rations

namespace Table

variable {env : Environment V K W} {p : Policies V K} {t m : Table V} {b b' : Budget}
  {f : Option Operation}

/-! ## Growth -/

theorem spends_growTo (henv : env.Rations budget p) (hwf : t.chains.WellFormed)
    (f : Option Operation) {n : Nat} (hn : n ≤ Ladder.top) (hmore : t.bucketCount < n)
    (h : n ≤ b.available.toNat)
    (hreturn : (b.grant .bucket n).deallocate .bucket t.bucketCount = .ok b') :
    Spends budget (growTo env n) (t.fencedBy f) b (.ok ()) ((t.moved n).counted.fencedBy f)
      b' := by
  obtain ⟨old, hmove, -, hclear, hsize⟩ := moveTo_replicate hwf (Nat.zero_lt_of_lt hmore)
  rw [← hsize] at hreturn
  have hpos : 0 < old.size := hsize ▸ hwf.buckets_pos
  unfold growTo
  refine (Spends.world (henv.pays_allocateBuckets hn h)).bind ?_
  refine (Spends.read _).bind ((Spends.update (moveTo_fencedBy hmove f)).bind ?_)
  refine (Spends.world (henv.pays_releaseBuckets hclear hpos hreturn)).bind ?_
  refine (Spends.change _).bind ?_
  exact (Spends.read _).bind ((Spends.world (henv.pays_notice _)).bind .pure)

theorem spends_growTo_refused (henv : env.Rations budget p) {n : Nat} (hn : n ≤ Ladder.top)
    (h : b.available.toNat < n) :
    Spends budget (growTo env n) t b (.error (.exhausted n b.available.toNat)) t b.refuse := by
  unfold growTo
  exact (Spends.world (henv.pays_allocateBuckets_refused hn h)).bind .pure

theorem spends_rehash_still (henv : env.Rations budget p) {hint : Nat} (h : ¬ t.MustGrow hint) :
    Spends budget (rehash env hint) t b (.ok ()) t b := by
  unfold rehash
  refine (Spends.read _).bind ?_
  show Spends budget (if hint ≤ t.bucketCount then _ else _) t b _ t b
  split
  · exact .pure
  · have hlt : t.bucketCount < hint := Nat.lt_of_not_le ‹_›
    have hfull : Ladder.fit hint ≤ t.bucketCount :=
      Nat.le_of_not_lt fun hfit => h ⟨hlt, (Ladder.lt_fit_iff hlt).1 hfit⟩
    refine (Spends.world (henv.pays_fitBuckets hint)).bind ?_
    show Spends budget (if Ladder.fit hint ≤ t.bucketCount then _ else _) t b _ t b
    rw [if_pos hfull]
    exact .pure

theorem spends_rehash_of_growTo (henv : env.Rations budget p) {hint : Nat} (h : t.MustGrow hint)
    {r : Except AllocError Unit} {t' : Table V}
    (hgrow : Spends budget (.fenced .rehash (growTo env (Ladder.fit hint))) t b r t' b') :
    Spends budget (rehash env hint) t b r t' b' := by
  unfold rehash
  refine (Spends.read _).bind ?_
  show Spends budget (if hint ≤ t.bucketCount then _ else _) t b r t' b'
  rw [if_neg (Nat.not_le.2 h.1)]
  refine (Spends.world (henv.pays_fitBuckets hint)).bind ?_
  show Spends budget (if Ladder.fit hint ≤ t.bucketCount then _ else _) t b r t' b'
  rw [if_neg (Nat.not_le.2 h.lt_fit)]
  exact hgrow

theorem spends_rehash_refused (henv : env.Rations budget p) (hfence : t.fence = none) {hint : Nat}
    (h : t.MustGrow hint) (hshort : b.available.toNat < Ladder.fit hint) :
    Spends budget (rehash env hint) t b
      (.error (.exhausted (Ladder.fit hint) b.available.toNat)) t b.refuse :=
  spends_rehash_of_growTo henv h
    ((spends_growTo_refused henv (Ladder.bounds_fit hint).2 hshort).fenced hfence hfence)

/-- A growth that is granted leaves at least the units of the old buckets available. -/
theorem spends_rehash_granted (henv : env.Rations budget p) (hwf : t.chains.WellFormed)
    (hfence : t.fence = none) {rest : Debt} (hcounts : b.Counts (live rest t 0)) {hint : Nat}
    (h : t.MustGrow hint) (hgrant : Ladder.fit hint ≤ b.available.toNat) :
    ∃ b', Spends budget (rehash env hint) t b (.ok ()) (t.moved (Ladder.fit hint)).counted b'
      ∧ b'.available ≠ 0 := by
  have hgrown := grown_counted hwf (Ladder.bounds_fit hint).1
  have hboth : (b.grant .bucket _).Counts _ := hcounts.grant hgrant
  have hdebt : (live rest t 0).add .bucket (Ladder.fit hint)
      = (live rest (t.moved (Ladder.fit hint)).counted 0).add .bucket t.bucketCount := by
    rw [← live_add, live_grown rest hgrown, live_add]
  rw [hdebt] at hboth
  obtain ⟨b', hreturn, hcounts'⟩ := hboth.deallocate
  have hlimit : b'.limit = b.limit :=
    (Budget.limit_deallocate hreturn).trans (Budget.limit_setLive _)
  refine ⟨b', spends_rehash_of_growTo henv h
    ((spends_growTo henv hwf _ (Ladder.bounds_fit hint).2 h.lt_fit hgrant hreturn).fenced hfence
      (hgrown.fence.trans hfence)), ?_⟩
  have hsize : (t.moved (Ladder.fit hint)).counted.size = t.size := hgrown.size
  have hbuckets : (t.moved (Ladder.fit hint)).counted.bucketCount = Ladder.fit hint :=
    hgrown.chains.bucketCount
  have hpos : 0 < t.bucketCount := hwf.buckets_pos
  have hmore := h.lt_fit
  intro hnone
  have havailable := hcounts'.toNat_available
  rw [hcounts.toNat_available] at hgrant
  rw [hnone, hlimit] at havailable
  simp only [live, hsize, hbuckets, UInt64.toNat_zero] at hgrant havailable
  omega

/-! ## Seeking a key -/

end Table

/-- The foreign code of the environment, beside a supply that has nothing and does nothing. -/
def Environment.idle (env : Environment V K W) : Environment V K W where
  toCaller := env.toCaller
  allocate _ _ w := (.error .capacityOverflow, w)
  deallocate _ _ := pure ()
  reserve _ w := (false, w)
  report _ w := w
  nodeBytes := 0
  slotBytes := 0

namespace Contract

variable {env : Environment V K W} {p : Policies V K} {t : Table V} {b : Budget}

/-- The table and the budget stay, nothing panics, and the answers are those of the policies. -/
def asking (budget : W → Budget) (p : Policies V K) (t : Table V) (b : Budget) :
    Contract V K W where
  inv _ t' w := t' = t ∧ budget w = b
  panics _ := False
  refuses _ := True
  key v k := k = p.extract v
  hash k hash := hash = p.hash k
  eq a b same := same = p.keyEq a b

theorem says_asking : (asking budget p t b : Contract V K W).Says p :=
  ⟨fun h => h, fun h => h, fun h => h⟩

theorem settles_asking {t' : Table V} {w : W} {a : α} {r : EStateM.Result Panic W α}
    (h : t' = t ∧ budget w = b) (hkeeps : budget (Environment.worldAfter r) = budget w)
    (hruns : ∃ w', r = .ok a w') {d : Debt} {ok : α → Prop} (hok : ok a) :
    (asking budget p t b).Settles d t' ok r := by
  obtain ⟨w', rfl⟩ := hruns
  exact ⟨⟨h.1, hkeeps.trans h.2⟩, hok⟩

theorem obeyed_asking (henv : env.Rations budget p) (t : Table V) (b : Budget) :
    (asking budget p t b).Obeyed env.idle where
  extract _ seen v w h :=
    settles_asking h (henv.draws.extract seen v w) (henv.extract seen v w) rfl
  hash _ seen k w h := settles_asking h (henv.draws.hash seen k w) (henv.hash seen k w) rfl
  keyEq _ seen x y w h :=
    settles_asking h (henv.draws.keyEq seen x y w) (henv.keyEq seen x y w) rfl
  dispose _ seen v w h :=
    settles_asking h (henv.draws.dispose seen v w) (henv.dispose seen v w) trivial
  unwinding _ seen v w h := ⟨h.1, (henv.draws.unwinding seen v w).trans h.2⟩
  report _ _ _ _ h := h
  reserve _ _ _ _ h := h
  unreserved _ _ _ _ := trivial
  allocate _ _ _ _ _ h := ⟨h, trivial⟩
  deallocate _ _ _ _ _ h := ⟨h, trivial⟩

/-- An operation that asks only, and whose answer is determined, spends nothing. -/
theorem Keeps.spends {op : Op W V α} {f : Option Operation} {φ : α → Prop} {a : α}
    (h : (asking budget p t b).Keeps f 0 t op (still t φ)) (hwf : t.chains.WellFormed)
    (hφ : ∀ x, φ x → x = a) : Spends budget op (t.fencedBy f) b a (t.fencedBy f) b := by
  intro w hw
  have hends := h w ⟨rfl, hw⟩ hwf
  cases hrun : op ⟨t.fencedBy f, w⟩ with
  | ok x s =>
      rw [hrun] at hends
      obtain ⟨d, t', htable, hinv, -, -, rfl, hx⟩ := hends
      obtain ⟨table, w'⟩ := s
      obtain rfl : table = t'.fencedBy f := htable
      exact ⟨w', by rw [hφ x hx], hinv.2⟩
  | error q s =>
      rw [hrun] at hends
      obtain ⟨-, -, -, -, hpanic⟩ := hends
      exact hpanic.elim

end Contract

namespace Table

variable {env : Environment V K W} {p : Policies V K} {t m : Table V} {b b' : Budget}
  {f : Option Operation}

/-- Whether a node of the element `e` matches the key `q`. -/
def matchesKey (p : Policies V K) (q : K) (e : Element V) : Bool :=
  e.hash == p.hash q && p.keyEq (p.extract e.value) q

/-- The first match for the key `q`. -/
def firstMatch? (p : Policies V K) (t : Table V) (q : K) : Option ArenaKey :=
  ((t.homeRow (p.hash q)).find? (matchesKey p q)).map (·.key)

theorem matchesKey_of_differs {C : Contract V K W} (hC : C.Says p) {q : K} {e : Element V}
    (h : C.Differs (p.hash q) q e) : matchesKey p q e = false := by
  by_cases hhash : e.hash = p.hash q
  · obtain ⟨k, hk, heq⟩ := h hhash
    rw [matchesKey, ← hC.key hk, ← hC.eq heq, Bool.and_false]
  · rw [matchesKey, beq_false_of_ne hhash, Bool.false_and]

theorem matchesKey_of_matches {C : Contract V K W} (hC : C.Says p) {q : K} {e : Element V}
    (h : C.Matches (p.hash q) q e) : matchesKey p q e = true := by
  obtain ⟨hhash, k, hk, heq⟩ := h
  rw [matchesKey, hhash, beq_self_eq_true, Bool.true_and, ← hC.key hk, ← hC.eq heq]

theorem eq_firstMatch? {C : Contract V K W} (hC : C.Says p) {q : K} {x : Option ArenaKey}
    (h : C.FirstMatch (p.hash q) q (m.homeRow (p.hash q)) x) :
    x = m.firstMatch? p q := by
  rw [firstMatch?]
  cases x with
  | none =>
      have hnone : (m.homeRow (p.hash q)).find? (matchesKey p q) = none :=
        List.find?_eq_none.2 fun e he => by simp [matchesKey_of_differs hC (h e he)]
      rw [hnone]
      rfl
  | some k =>
      obtain ⟨xs, e, ys, hrow, rfl, hmatch, hbefore⟩ := h
      have hsome : (m.homeRow (p.hash q)).find? (matchesKey p q) = some e :=
        List.find?_eq_some_iff_append.2 ⟨matchesKey_of_matches hC hmatch, xs, ys, hrow,
          fun x hx => by simp [matchesKey_of_differs hC (hbefore x hx)]⟩
      rw [hsome]
      rfl

/-- What matches is on the home chain, so if nothing matches there, nothing does. -/
theorem firstMatch?_eq_none (hwf : t.chains.WellFormed) {q : K} :
    t.firstMatch? p q = none ↔ ∀ e ∈ t.chains.elements, matchesKey p q e = false := by
  rw [firstMatch?, Option.map_eq_none_iff, List.find?_eq_none]
  constructor
  · intro h e he
    refine Bool.eq_false_of_not_eq_true fun hmatch => h e ?_ hmatch
    have hhash : e.hash = p.hash q := by
      rw [matchesKey, Bool.and_eq_true] at hmatch
      exact eq_of_beq hmatch.1
    exact hwf.mem_iff.2 ⟨hwf.mem_elements_iff.1 he, by rw [hhash]⟩
  · intro h e he
    rw [h e (hwf.mem_elements_iff.2 (hwf.mem_iff.1 he).1)]
    exact Bool.false_ne_true

theorem spends_disposeOp (henv : env.Rations budget p) (v : V) :
    Spends budget (env.disposeOp v) t b () t b := by
  rintro w rfl
  obtain ⟨w', hrun⟩ := henv.dispose t v w
  have hkeeps := henv.draws.dispose t v w
  rw [hrun] at hkeeps
  refine ⟨w', ?_, hkeeps⟩
  unfold Environment.disposeOp Op.call
  simp only [hrun]

/-- The key of `v` is sought in the name of `op`. -/
theorem spends_seek (henv : env.Rations budget p) (hwf : t.chains.WellFormed)
    (hfence : t.fence = none) (op : Operation) (v : V) :
    Spends budget (.fenced op do search env (← env.extractOp v)) t b
      (p.hash (p.extract v), t.firstMatch? p (p.extract v)) t b := by
  have hidle := Contract.obeyed_asking henv t b
  have hseek : (Contract.asking budget p t b).Keeps (some op) 0 t
      (do search env.idle (← env.idle.extractOp v)) (Contract.still t fun r =>
        r.1 = p.hash (p.extract v) ∧ r.2 = t.firstMatch? p (p.extract v)) := by
    refine (keeps_extractOp hidle v).bindStill fun k hk => ?_
    obtain rfl : k = p.extract v := hk
    refine (keeps_search hidle _).mono fun r d t' hr => ?_
    obtain ⟨rfl, rfl, hhash, hfound⟩ := hr
    refine ⟨rfl, rfl, hhash, ?_⟩
    rw [show r.1 = p.hash (p.extract v) from hhash] at hfound
    exact eq_firstMatch? Contract.says_asking hfound
  refine Spends.fenced ?_ hfence hfence
  exact hseek.spends hwf fun r hr => Prod.ext hr.1 hr.2

end Table

end SeparateChaining
