import SeparateChaining.Proofs.Chains.Moving
import SeparateChaining.Proofs.Contract.Wild
import SeparateChaining.Proofs.Table.Lookup
import SeparateChaining.Proofs.Table.Rehash
import SeparateChaining.Table.Lifetime

/-!
# Creating, copying and releasing

A new table is well formed, and so is a copy, whatever values foreign
code made for it. Both are made before any table holds their storage,
which is therefore owed at the end. Releasing goes the other way: first
everything that the table held is owed, then it is returned. What is
left of a table while it is released is not well formed, so `Drains`
speaks of the world alone.
-/

namespace SeparateChaining

variable {V K W : Type}

/-! ## Fresh chains and copied chains -/

theorem Arena.get?_empty {α : Type} (k : ArenaKey) : (Arena.empty : Arena α).get? k = none := by
  simp [Arena.get?, Arena.empty]

theorem Chains.arranged_ofBuckets {n : Nat} (hn : 0 < n) :
    (Chains.ofBuckets (.replicate n) : Chains V).Arranged fun _ => [] where
  buckets_pos := by
    show 0 < (Buckets.replicate n).size
    rwa [Buckets.size_replicate]
  linked i := by
    show Chains.Segment _ ((Buckets.replicate n).head i) [] none
    rw [Buckets.head_replicate]
    exact .nil none
  home i e he := absurd he List.not_mem_nil
  complete k n hk := by
    rw [show (Chains.ofBuckets _).nodes.get? k = none from Arena.get?_empty k] at hk
    cases hk

namespace Table

theorem wellFormed_ofBuckets {id n : Nat} (hn : 0 < n) :
    (ofBuckets id (.replicate n) : Table V).chains.WellFormed :=
  (Chains.arranged_ofBuckets hn).wellFormed

theorem get?_withValues (t : Table V) (id : Nat) (vs : List V) (k : ArenaKey) :
    ∃ g : V → V, (t.withValues id vs).chains.nodes.get? k
      = (t.chains.nodes.get? k).map fun n => { n with value := g n.value } := by
  obtain ⟨hsome, hval⟩ : _ ∧ ∀ m, (t.withValues id vs).chains.nodes.get? k = some m → _ :=
    Arena.get?_refill k
  cases hnew : (t.withValues id vs).chains.nodes.get? k with
  | none =>
      have hnone : (t.chains.nodes.get? k).isSome = false := by
        rw [← hsome]
        exact congrArg Option.isSome hnew
      rw [Option.isNone_iff_eq_none.1 (Option.isSome_eq_false_iff.1 hnone)]
      exact ⟨fun v => v, rfl⟩
  | some m =>
      obtain ⟨n, hn, hm⟩ := hval m hnew
      refine ⟨fun _ => m.value, ?_⟩
      rw [hn]
      rcases hm with rfl | ⟨v, -, rfl⟩ <;> rfl

/-- The value of a live node is replaced by the one that stands for it in the list. -/
theorem get?_withValues_of_forall₂ {R : V → V → Prop} {t : Table V} {vs : List V}
    (h : List.Forall₂ R t.slotValues vs) (id : Nat) {k : ArenaKey} {n : Node V}
    (hn : t.chains.nodes.get? k = some n) :
    ∃ u, R n.value u ∧ (t.withValues id vs).chains.nodes.get? k = some { n with value := u } :=
  Arena.get?_refill_of_forall₂ (List.forall₂_map_left_iff.1 h) _ hn

theorem wellFormed_withValues {t : Table V} (hwf : t.chains.WellFormed) (id : Nat) (vs : List V) :
    (t.withValues id vs).chains.WellFormed := by
  choose g hg using get?_withValues t id vs
  exact (hwf.revalue hg).wellFormed

theorem size_withValues (t : Table V) (id : Nat) (vs : List V) :
    (t.withValues id vs).size = t.size :=
  Arena.size_refill ..

end Table

/-- At some time copying `v` answered `u`. -/
def Environment.Copied (env : Environment V K W) (v u : V) : Prop :=
  ∃ seen w w', env.copy seen v w = .ok u w'

/-! ## Creating -/

namespace Table

variable {C : Contract V K W} {env : Environment V K W} {d : Debt} {t : Table V}

open Contract

theorem uses_create (henv : C.Obeyed env) (id capacity : Nat) :
    C.Uses d t (create env.toSupply V id capacity) fun r d' => match r with
      | .ok t' => d' = d.add .bucket t'.bucketCount
          ∧ t' = ofBuckets id (.replicate (Ladder.fit capacity))
      | .error e => d' = d ∧ C.refuses e := by
  unfold create
  refine (Uses.fitBuckets henv capacity).bind ?_
  intro n d' hn
  obtain ⟨rfl, rfl⟩ := hn
  refine (Uses.allocateBuckets henv (Ladder.bounds_fit capacity).2).bind ?_
  intro r d' hr
  cases r with
  | error e => exact Uses.pure hr
  | ok b =>
      obtain ⟨rfl, rfl⟩ := hr
      refine Uses.pure ⟨?_, rfl⟩
      show _ = d'.add .bucket (Buckets.replicate _).size
      rw [Buckets.size_replicate]

/-- A table is not made only if its buckets are refused. -/
theorem refuses_of_create {sup : Supply W} {id capacity : Nat} {w w' : W} {e : AllocError}
    (h : create sup V id capacity w = .ok (.error e) w') :
    sup.RefusesBuckets (sup.fitted capacity w) (Ladder.fit capacity) e := by
  unfold create at h
  rw [Op.run_bind_ok (sup.fitBuckets_run capacity w)] at h
  rcases hrun : sup.allocateBuckets (Ladder.fit capacity) (sup.fitted capacity w) with
    ⟨e' | b, w₁⟩ | ⟨p, w₁⟩
  · rw [Op.run_bind_ok hrun] at h
    cases h
    exact Supply.refuses_of_allocateBuckets (Ladder.bounds_fit capacity).2 hrun
  · rw [Op.run_bind_ok hrun] at h
    cases h
  · rw [Op.run_bind_error hrun] at h
    cases h

/-! ## Copying -/

theorem keeps_disposeAll (henv : C.Obeyed env) (vs : List V) :
    C.Keeps none 0 t (env.disposeAll vs) (still t fun _ => True) := by
  induction vs with
  | nil => exact Keeps.pure ⟨rfl, rfl, trivial⟩
  | cons v vs ih =>
      exact (Keeps.holdingAll henv vs (Keeps.disposeOp henv v)).bindStill fun _ _ => ih

theorem keeps_copyOp (hcopies : C.Copies env) (v : V) :
    C.Keeps none 0 t (env.copyOp v) (still t (env.Copied v)) := by
  have hanswers : ∀ w, C.inv 0 t w →
      C.Settles 0 t (env.Copied v) (env.copy (t.fencedBy none) v w) := by
    intro w hinv
    have hsettles := hcopies t (t.fencedBy none) v w hinv
    cases hrun : env.copy (t.fencedBy none) v w with
    | ok u w' =>
        rw [hrun] at hsettles
        exact ⟨hsettles.1, _, w, w', hrun⟩
    | error p w' =>
        rw [hrun] at hsettles
        exact hsettles
  exact Keeps.call hanswers fun _ hu => ⟨rfl, rfl, hu⟩

/-- The copies stand in the order of their originals, of which `olds` are those of `made`. -/
theorem keeps_copyAll (henv : C.Obeyed env) (hcopies : C.Copies env) (vs : List V)
    {made olds : List V} (hmade : List.Forall₂ env.Copied olds made.reverse) :
    C.Keeps none 0 t (copyAll env made vs) (still t (List.Forall₂ env.Copied (olds ++ vs))) := by
  induction vs generalizing made olds with
  | nil =>
      rw [List.append_nil]
      exact Keeps.pure ⟨rfl, rfl, hmade⟩
  | cons v vs ih =>
      refine Keeps.bindStill ((keeps_copyOp hcopies v).onPanic
        fun _ _ _ hinv => henv.unwindAll made.reverse hinv) fun u hu => ?_
      rw [List.append_cons]
      refine ih ?_
      rw [List.reverse_cons]
      exact List.rel_append hmade (.cons hu .nil)

/-- What a table holds, as a debt. -/
def holdings (t : Table V) : Debt := ((0 : Debt).add .bucket t.bucketCount).add .node t.size

theorem keeps_grantCopy (henv : C.Obeyed env) :
    C.Keeps none 0 t (grantCopy env)
      (C.OrRefused (· = t) fun _ d t' => d = t.holdings ∧ t' = t) := by
  unfold grantCopy
  refine Keeps.bindRead (Keeps.bindWorld (Uses.request henv .bucket t.bucketCount) fun r d hr => ?_)
  cases r with
  | error e =>
      obtain ⟨rfl, he⟩ := hr
      exact Keeps.pure ⟨rfl, rfl, he⟩
  | ok u =>
      obtain rfl := hr
      refine Keeps.bindWorld (Uses.request henv .node t.size) ?_
      intro r d hr
      cases r with
      | ok u =>
          obtain rfl := hr
          exact Keeps.pure ⟨rfl, rfl⟩
      | error e =>
          obtain ⟨rfl, he⟩ := hr
          refine Keeps.bindWorld (Uses.deallocate henv .bucket t.bucketCount) ?_
          intro _ d hd
          obtain rfl := hd
          exact Keeps.pure ⟨rfl, rfl, he⟩

/-- A copy is granted what its original holds, or nothing. -/
theorem keeps_copy (henv : C.Obeyed env) (hcopies : C.Copies env)
    (hrefusal : ∀ e, C.refuses e → C.panics (.allocationFailed e)) (id : Nat) :
    C.Keeps none 0 t (copy env id) fun t' d t'' =>
      t'' = t ∧ d = t.holdings
        ∧ ∃ vs, t' = t.withValues id vs ∧ List.Forall₂ env.Copied t.slotValues vs := by
  unfold copy
  refine Keeps.bindRead ((keeps_copyAll henv hcopies _ .nil).bindStill fun vs hvs => ?_)
  refine (Keeps.holdingAll henv vs (keeps_grantCopy henv)).bind ?_
  intro r d t' hr
  cases r with
  | error e =>
      obtain ⟨rfl, rfl, he⟩ := hr
      refine (keeps_disposeAll henv vs).bindStill ?_
      intro _ _
      exact Keeps.throw (hrefusal e he)
  | ok u =>
      obtain ⟨rfl, rfl⟩ := hr
      exact Keeps.read ⟨rfl, rfl, vs, rfl, hvs⟩

/-- In the world `w` the supply refuses what a copy of `t` takes: the buckets, or, when these are
granted, the nodes. -/
inductive RefusesCopy (env : Environment V K W) (w : W) (t : Table V) (e : AllocError) : Prop
  | buckets {w₁ : W} (refused : env.allocate .bucket t.bucketCount w = (.error e, w₁))
  | nodes {w₁ w₂ : W} (granted : env.allocate .bucket t.bucketCount w = (.ok (), w₁))
      (refused : env.allocate .node t.size w₁ = (.error e, w₂))

/-- A copy of `t` that is made in the world `w` is refused what it takes when the values are
copied. -/
def CopyRefused (env : Environment V K W) (w : W) (t : Table V) (e : AllocError) : Prop :=
  ∃ vs w₁, copyAll env [] t.slotValues ⟨t, w⟩ = .ok vs ⟨t, w₁⟩ ∧ RefusesCopy env w₁ t e

theorem refuses_of_grantCopy {w : W} {e : AllocError} {s : Running V W}
    (h : grantCopy env ⟨t, w⟩ = .ok (.error e) s) : RefusesCopy env w t e := by
  have hrequest : ∀ block n w, Op.world (env.request block n) (⟨t, w⟩ : Running V W)
      = .ok (env.allocate block n w).1 ⟨t, (env.allocate block n w).2⟩ := fun _ _ _ => rfl
  unfold grantCopy at h
  rw [Op.run_read_bind] at h
  dsimp only at h
  rw [Op.run_bind_ok (hrequest ..)] at h
  rcases hbuckets : env.allocate .bucket t.bucketCount w with ⟨e' | u, w₁⟩
  · rw [hbuckets] at h
    cases h
    exact .buckets hbuckets
  · rw [hbuckets] at h
    dsimp only at h
    rw [Op.run_bind_ok (hrequest ..)] at h
    rcases hnodes : env.allocate .node t.size w₁ with ⟨e' | u, w₂⟩
    · rw [hnodes] at h
      obtain ⟨u', s', -, hreturn⟩ := Op.of_run_bind_ok h
      cases hreturn
      exact .nodes hbuckets hnodes
    · rw [hnodes] at h
      cases h

/-- A copy panics if the environment does, or because what it takes is refused. -/
theorem refused_of_copy (hwf : t.chains.WellFormed) (hfence : t.fence = none) {id : Nat} {w : W}
    {q : Panic} {s : Running V W} (h : copy env id ⟨t, w⟩ = .error q s) :
    env.Raises q ∨ ∃ e, q = .allocationFailed e ∧ CopyRefused env w t e := by
  have henv := obeyed_wild_of env (fun _ hp => hp) (· = t)
  have hcopies : (wild env.Raises (· = t)).Copies env := fun _ _ _ _ hinv =>
    settles_wild (fun _ _ _ => trivial) (fun _ _ hr => Or.inl (.copy hr)) hinv
  unfold copy at h
  rw [Op.run_read_bind] at h
  have hmade : List.Forall₂ env.Copied [] ([] : List V).reverse := .nil
  have hkeeps := keeps_copyAll (t := t) henv hcopies t.slotValues hmade
  rcases Op.of_run_bind_error h with hpanic | ⟨vs, ⟨u, w₁⟩, hcopied, hrest⟩
  · obtain ⟨-, -, -, -, hraises⟩ := hkeeps.of_run_error hfence hwf rfl hpanic
    exact Or.inl hraises
  obtain ⟨-, t', htable, -, -, -, rfl, -⟩ := hkeeps.of_run_ok hfence hwf rfl hcopied
  obtain rfl : u = t' := htable.trans (fencedBy_eq hfence)
  have hgrants := Keeps.holdingAll henv vs (keeps_grantCopy (t := u) henv)
  rcases Op.of_run_bind_error hrest with hpanic | ⟨r, ⟨u', w₂⟩, hgrant, hend⟩
  · obtain ⟨-, -, -, -, hraises⟩ := hgrants.of_run_error hfence hwf rfl hpanic
    exact Or.inl hraises
  cases r with
  | ok u => cases hend
  | error e =>
      obtain ⟨-, t'', htable', -, -, -, rfl, -⟩ :=
        hgrants.of_run_ok hfence hwf rfl hgrant
      obtain rfl : u' = t'' := htable'.trans (fencedBy_eq hfence)
      rcases Op.of_run_bind_error hend with hpanic | ⟨r, s', -, hthrow⟩
      · obtain ⟨-, -, -, -, hraises⟩ :=
          (keeps_disposeAll henv vs).of_run_error hfence hwf rfl hpanic
        exact Or.inl hraises
      · cases hthrow
        exact Or.inr ⟨e, rfl, vs, w₁, hcopied, refuses_of_grantCopy (Op.of_run_onPanic_ok hgrant)⟩

end Table

/-! ## Releasing -/

namespace Contract

variable {α β : Type} {C : Contract V K W} {env : Environment V K W} {d d' d'' : Debt}
  {t : Table V}

/-- How an operation may end that runs on what is left of a table, while `t` stands for what there
is besides: with debt `d'`, or with a panic and nothing owed. -/
def Drained (C : Contract V K W) (t : Table V) (d' : Debt) :
    EStateM.Result Panic (Running V W) α → Prop
  | .ok _ s => C.inv d' t s.world
  | .error p s => C.inv 0 t s.world ∧ C.panics p

def Drains (C : Contract V K W) (t : Table V) (d d' : Debt) (op : Op W V α) : Prop :=
  ∀ s, C.inv d t s.world → C.Drained t d' (op s)

namespace Drains

theorem bind {op : Op W V α} {g : α → Op W V β} (hop : C.Drains t d d' op)
    (hg : ∀ a, C.Drains t d' d'' (g a)) : C.Drains t d d'' (op >>= g) := by
  intro s hinv
  have hdrained := hop s hinv
  show C.Drained t d'' (EStateM.bind op g s)
  rw [EStateM.bind]
  cases hrun : op s with
  | ok a s' =>
      rw [hrun] at hdrained
      exact hg a s' hdrained
  | error p s' =>
      rw [hrun] at hdrained
      exact hdrained

theorem change {g : Table V → α × Table V} : C.Drains t d d (Op.change g) := fun _ hinv => hinv

theorem world {act : EStateM Panic W α} (hact : C.Uses d t act fun _ d'' => d'' = d') :
    C.Drains t d d' (Op.world act) := by
  intro s hinv
  have huses := hact s.world hinv
  rw [Op.world]
  cases hrun : act s.world with
  | ok a w =>
      rw [hrun] at huses
      obtain ⟨_, hinv', rfl⟩ := huses
      exact hinv'
  | error p w =>
      rw [hrun] at huses
      exact huses

theorem disposeOp (henv : C.Obeyed env) (v : V) : C.Drains t 0 0 (env.disposeOp v) := by
  intro s hinv
  have hsettles := henv.dispose t s.table v s.world hinv
  rw [Environment.disposeOp, Op.call]
  cases hrun : env.dispose s.table v s.world with
  | ok a w =>
      rw [hrun] at hsettles
      exact hsettles.1
  | error p w =>
      rw [hrun] at hsettles
      exact hsettles

theorem onPanic {body : Op W V α} {cleanup : Table V → W → W} (h : C.Drains t d d' body)
    (hclean : ∀ seen w, C.inv 0 t w → C.inv 0 t (cleanup seen w)) :
    C.Drains t d d' (body.onPanic cleanup) := by
  intro s hinv
  have hbody := h s hinv
  rw [Op.onPanic]
  cases hrun : body s with
  | ok a s' =>
      rw [hrun] at hbody
      exact hbody
  | error p s' =>
      rw [hrun] at hbody
      exact ⟨hclean _ _ hbody.1, hbody.2⟩

end Drains

end Contract

/-- A table that is given up holds nothing, and what it held is owed. -/
def Contract.Empties (C : Contract V K W) : Prop :=
  ∀ t w, t.chains.WellFormed → C.inv 0 t w → C.inv t.holdings { t with chains := default } w

namespace Table

variable {C : Contract V K W} {env : Environment V K W} {t : Table V}

open Contract

/-- Everything held is returned: the buckets, which head no chain any more, and then the nodes. -/
theorem uses_returnStorage (henv : C.Obeyed env) {b : Buckets} (hpos : 0 < b.size) (n : Nat) :
    C.Uses (((0 : Debt).add .bucket b.size).add .node n) t (returnStorage env.toSupply b n)
      fun _ d => d = 0 := by
  have hclear : b.emptied.isClear = true := by
    rw [Buckets.isClear, Array.all_eq_true]
    intro i hi
    simp [Buckets.emptied, Buckets.replicate]
  have hsize : b.emptied.size = b.size := Buckets.size_replicate _
  have hswap : ((0 : Debt).add .bucket b.size).add .node n
      = ((0 : Debt).add .node n).add .bucket b.emptied.size := by
    rw [hsize]
    rfl
  rw [hswap]
  unfold returnStorage
  refine (Uses.releaseBuckets henv hclear (by rwa [hsize])).bind ?_
  intro _ d hd
  obtain rfl := hd
  split
  · obtain rfl := ‹n = 0›
    exact Uses.pure rfl
  · exact Uses.deallocate henv .node n

theorem drains_releaseNodes (henv : C.Obeyed env) (ks : List ArenaKey) :
    C.Drains t 0 0 (releaseNodes env ks) := by
  induction ks with
  | nil => exact fun _ hinv => hinv
  | cons k ks ih =>
      refine Drains.change.bind ?_
      intro r
      refine Drains.bind ?_ fun _ => ih
      cases r with
      | none => exact fun _ hinv => hinv
      | some v => exact (Drains.disposeOp henv v).onPanic fun _ _ hinv => henv.unwindAll _ hinv

/-- A table that is released holds nothing in the end and owes nothing, also when disposing of a
value panics. -/
theorem drained_release (henv : C.Obeyed env) (hempties : C.Empties) (hwf : t.chains.WellFormed)
    {w : W} (hinv : C.inv 0 t w) :
    C.Drained { t with chains := default } 0 (release env ⟨t, w⟩) := by
  have hreturn : C.Drains { t with chains := default } t.holdings 0
      ((Op.world (returnStorage env.toSupply t.chains.buckets t.size)).onPanic
        (disposeHeld env) : Op W V Unit) :=
    (Drains.world (uses_returnStorage henv hwf.buckets_pos t.size)).onPanic
      fun _ _ hinv => henv.unwindAll _ hinv
  have hrest := hreturn.bind fun _ => drains_releaseNodes henv t.chains.nodes.keys
  exact hrest ⟨_, w⟩ (hempties t w hwf hinv)

end Table

end SeparateChaining
