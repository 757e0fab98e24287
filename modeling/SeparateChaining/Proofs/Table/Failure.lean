import SeparateChaining.Proofs.Contract.Wild
import SeparateChaining.Proofs.Table.Insertion
import SeparateChaining.Proofs.Table.Rehash
import SeparateChaining.Proofs.Table.Removal

/-!
# What failures leave

An operation fails by an answer that reports a refusal, or by a panic.
What making room comes to is known (`rehash_spec`). An insertion that
fails has changed nothing after it made room: the table is the one that
making room alone would have left (`spares_insertNew`,
`spares_insertAny`). If it is refused, then that is because a request of
its own was: the one for buckets, with which it begins, or the one for a
node, once the key was sought (`InsertionRefused`). A removal that fails
has taken out whatever it came to, the last of it being the element
whose value panicked.
-/

namespace SeparateChaining

variable {V K W α β : Type}

namespace Op

/-- If the operation has failed, by a refusal or a panic, then `t` is left. -/
def Spares (t : Table V) : EStateM.Result Panic (Running V W) (Except AllocError α) → Prop
  | .ok (.ok _) _ => True
  | .ok (.error _) s => s.table = t
  | .error _ s => s.table = t

theorem Leaves.bindSpares {op : Op W V α} {g : α → Op W V (Except AllocError β)} {t : Table V}
    {s : Running V W} (hop : Leaves t (op s)) (hg : ∀ a w, Spares t (g a ⟨t, w⟩)) :
    Spares t ((op >>= g) s) := by
  cases hrun : op s with
  | ok a s' =>
      rw [hrun] at hop
      obtain ⟨table, w⟩ := s'
      obtain rfl : table = t := hop
      rw [run_bind_ok hrun]
      exact hg a w
  | error p s' =>
      rw [hrun] at hop
      rw [run_bind_error hrun]
      exact hop

theorem Spares.fenced {op : Operation} {body : Op W V (Except AllocError α)} {t : Table V} {w : W}
    (hfence : t.fence = none)
    (h : Spares (t.fencedBy (some op)) (body ⟨t.fencedBy (some op), w⟩)) :
    Spares t (Op.fenced op body ⟨t, w⟩) := by
  have hdown : ∀ s : Running V W, s.table = t.fencedBy (some op) → s.table.fencedBy none = t := by
    intro s hs
    rw [hs]
    exact Table.fencedBy_eq hfence
  unfold Op.fenced
  simp only [hfence]
  simp only [Table.fencedBy] at h
  rcases hrun : body ⟨{ t with fence := some op }, w⟩ with ⟨e | a, s⟩ | ⟨p, s⟩
  · simp only [hrun] at h ⊢
    exact hdown s h
  · trivial
  · simp only [hrun] at h ⊢
    exact hdown s h

theorem Spares.map {op : Op W V (Except AllocError α)} {t : Table V} {s : Running V W}
    (h : Spares t (op s)) (g : α → β) : Spares t ((do return (← op).map g : Op W V _) s) := by
  rcases hrun : op s with ⟨e | a, s'⟩ | ⟨p, s'⟩
  · rw [hrun] at h
    rw [run_bind_ok hrun]
    exact h
  · rw [run_bind_ok hrun]
    trivial
  · rw [hrun] at h
    rw [run_bind_error hrun]
    exact h

end Op

/-- The panic `p` comes of disposing of `v`, of which foreign code sees `seen`, or of a return of
storage. -/
def Environment.FailsOn (env : Environment V K W) (seen : Table V) (v : V) (p : Panic) : Prop :=
  (∃ w w', env.dispose seen v w = .error p w') ∨ env.toSupply.Raises p

namespace Table

variable {env : Environment V K W} {t : Table V} {f : Option Operation}

/-- The elements `xs` and then `e` were taken out of `t`, under fence `f`, and the panic `p` comes
of giving up `e`. All others are where they were. -/
structure CutAt (env : Environment V K W) (f : Option Operation) (t : Table V)
    (xs : List (Element V)) (e : Element V) (p : Panic) (t' : Table V) : Prop where
  table : t' = t.withoutAll (Chains.keysOf (xs ++ [e]))
  panics : env.FailsOn (t'.fencedBy f) e.value p
  row : ∀ i, t'.chains.row i
    = (t.chains.row i).filter fun x => x.key ∉ Chains.keysOf (xs ++ [e])

open Op (Leaves Spares)

/-! ## Reservation -/

theorem reserve_of_overflow {n : Nat} (h : countLimit ≤ t.size + n) (w : W) :
    reserve env n ⟨t, w⟩ = .ok (.error .capacityOverflow) ⟨t, w⟩ := by
  rw [reserve, Op.run_read_bind]
  show (if countLimit ≤ t.size + n then _ else _ : Op W V _) _ = _
  rw [if_pos h]
  rfl

theorem reserve_of_fits {n : Nat} (h : ¬ countLimit ≤ t.size + n) (w : W) :
    reserve env n ⟨t, w⟩ = rehash env (t.size + n) ⟨t, w⟩ := by
  rw [reserve, Op.run_read_bind]
  show (if countLimit ≤ t.size + n then _ else _ : Op W V _) _ = _
  rw [if_neg h]

theorem refused_of_rehash (ht : t.chains.WellFormed) (hfence : t.fence = none) {hint : Nat} {w : W}
    {e : AllocError} {s : Running V W} (h : rehash env hint ⟨t, w⟩ = .ok (.error e) s) :
    s.table = t ∧ RoomRefused env w t hint e := by
  have hspec := rehash_spec ht hfence env hint w
  rwa [h] at hspec

theorem refused_of_reserve (ht : t.chains.WellFormed) (hfence : t.fence = none) {n : Nat} {w : W}
    {e : AllocError} {s : Running V W} (h : reserve env n ⟨t, w⟩ = .ok (.error e) s) :
    s.table = t ∧ if countLimit ≤ t.size + n then e = .capacityOverflow
      else RoomRefused env w t (t.size + n) e := by
  by_cases hlimit : countLimit ≤ t.size + n
  · rw [if_pos hlimit]
    rw [reserve_of_overflow hlimit] at h
    cases h
    exact ⟨rfl, rfl⟩
  · rw [if_neg hlimit]
    rw [reserve_of_fits hlimit] at h
    exact refused_of_rehash ht hfence h

/-! ## Insertion -/

theorem leaves_refuse (value : V) (e : AllocError) (w : W) :
    Leaves t ((refuse env value e : Op W V (Except AllocError α)) ⟨t, w⟩) := by
  unfold refuse
  exact (Op.leaves_call _ _).bind fun _ _ => rfl

theorem spares_link (hwf : t.chains.WellFormed) (p : Chains.Place) (value : V) (hash : UInt64)
    (w : W) : Spares (t.fencedBy f) (link env p value hash ⟨t.fencedBy f, w⟩) := by
  unfold link
  refine ((Op.leaves_query _ _).onPanic _).bindSpares fun _ w => ?_
  refine ((keeps_grantNode (Contract.obeyed_anything env _) value).leaves hwf w).bindSpares ?_
  intro r w
  cases r with
  | error e => rfl
  | ok u => trivial

/-- Up to the seeking of the key nothing changes but for the room made. -/
theorem leaves_prepare {op : Operation} {value : V} {m : Table V} {w : W}
    (hwf : m.chains.WellFormed) (hfence : m.fence = none)
    (hm : Leaves m (rehash env (t.size + 1) ⟨t, w⟩)) :
    Leaves m (prepare env op value ⟨t, w⟩) := by
  have hroom : Leaves m ((do rehash env ((← .read (·.size)) + 1) : Op W V _) ⟨t, w⟩) := hm
  have henv := Contract.obeyed_anything env (· = m)
  unfold prepare
  refine (hroom.onPanic _).bind fun r w => ?_
  cases r with
  | error e => exact leaves_refuse value e w
  | ok u =>
      have hseek : (Contract.wild (fun _ => True) (· = m)).Keeps (some op) 0 m
          (do search env (← env.extractOp value)) fun _ _ _ => True :=
        (keeps_extractOp henv value).bindStill fun k _ =>
          (keeps_search henv k).mono fun _ _ _ _ => trivial
      have hsought := (Contract.Keeps.holding henv value hseek.fenced).leaves hwf w
      rw [fencedBy_eq hfence] at hsought
      exact hsought.bind fun _ _ => rfl

/-- What comes after the seeking of the key may rely on the room made. -/
theorem spares_prepare_bind {op : Operation} {value : V} {m : Table V} {w : W}
    {g : Except AllocError (UInt64 × Option ArenaKey) → Op W V (Except AllocError α)}
    (hwf : m.chains.WellFormed) (hfence : m.fence = none)
    (hm : Leaves m (rehash env (t.size + 1) ⟨t, w⟩)) (hg : ∀ r w, Spares m (g r ⟨m, w⟩)) :
    Spares m ((prepare env op value >>= g) ⟨t, w⟩) :=
  (leaves_prepare hwf hfence hm).bindSpares hg

theorem spares_insertNew {m : Table V} {w : W} (hwf : m.chains.WellFormed) (hfence : m.fence = none)
    (hm : Leaves m (rehash env (t.size + 1) ⟨t, w⟩)) (value : V) :
    Spares m (insertNew env value ⟨t, w⟩) := by
  refine spares_prepare_bind hwf hfence hm fun r w => ?_
  rcases r with e | ⟨hash, k | k⟩
  · rfl
  · exact Spares.fenced hfence
      ((spares_link hwf (m.homePlace hash) value hash w).map Placement.linked)
  · trivial

theorem spares_insertAny {m : Table V} {w : W} (hwf : m.chains.WellFormed) (hfence : m.fence = none)
    (hm : Leaves m (rehash env (t.size + 1) ⟨t, w⟩)) (value : V) :
    Spares m (insertAny env value ⟨t, w⟩) := by
  refine spares_prepare_bind hwf hfence hm fun r w => ?_
  rcases r with e | ⟨hash, found⟩
  · rfl
  · exact Spares.fenced hfence (spares_link hwf _ value hash w)

/-- Whatever an insertion spares is what its growth left. -/
theorem exists_spares {op : Op W V (Except AllocError α)} {w : W} (hwf : t.chains.WellFormed)
    (hfence : t.fence = none)
    (hspares : ∀ m : Table V, m.chains.WellFormed → m.fence = none →
      Leaves m (rehash env (t.size + 1) ⟨t, w⟩) → Spares m (op ⟨t, w⟩)) :
    ∃ m, t.Widened m ∧ Leaves m (rehash env (t.size + 1) ⟨t, w⟩) ∧ Spares m (op ⟨t, w⟩) := by
  obtain ⟨m, hwide, hm⟩ := exists_leaves_rehash hwf hfence env (t.size + 1) w
  exact ⟨m, hwide, hm, hspares m (hwide.wellFormed hwf) (hwide.fence.trans hfence) hm⟩

/-- An insertion does not end when making room panics. -/
theorem prepare_bind_of_panic {op : Operation} {value : V} {w : W} {p : Panic} {s : Running V W}
    (h : rehash env (t.size + 1) ⟨t, w⟩ = .error p s)
    (g : Except AllocError (UInt64 × Option ArenaKey) → Op W V α) :
    ∃ s', (prepare env op value >>= g) ⟨t, w⟩ = .error p s' := by
  have hroom : (do rehash env ((← .read (·.size)) + 1) : Op W V _) ⟨t, w⟩ = .error p s := h
  unfold prepare
  rw [bind_assoc]
  exact ⟨_, Op.run_bind_error (Op.run_onPanic_error hroom _) _⟩

/-- In the world `w` the supply refuses `t` one more node. Memory is needed if the arena is full. -/
def RefusesNode (env : Environment V K W) (w : W) (t : Table V) (e : AllocError) : Prop :=
  env.Refuses w .node 1
    (if t.chains.nodes.isFull then some ((t.chains.nodes.grownRoom + 1) * env.slotBytes) else none)
    env.nodeBytes e

/-- In the world `w` the insertion of `v` into `t`, in the name of `op`, is refused what it
requests: buckets, before anything else, or a node, when it is settled where it goes. -/
inductive InsertionRefused (env : Environment V K W) (w : W) (t : Table V) (op : Operation) (v : V)
    (e : AllocError) : Prop
  | room (refused : RoomRefused env w t (t.size + 1) e)
  | node {hash : UInt64} {found : Option ArenaKey} {m : Table V} {w₁ : W}
      (prepared : prepare env op v ⟨t, w⟩ = .ok (.ok (hash, found)) ⟨m, w₁⟩)
      (links : op = .insertNew → found = none) (refused : RefusesNode env w₁ m e)

theorem eq_of_refuse {v : V} {e e' : AllocError} {s s' : Running V W}
    (h : (refuse env v e : Op W V (Except AllocError α)) s = .ok (.error e') s') : e' = e := by
  obtain ⟨u, s₁, -, hreturn⟩ := Op.of_run_bind_ok h
  cases hreturn
  rfl

/-- Memory for a node is had unless the supply says that it is not. -/
theorem reserve_of_reserveNode {w : W} {s : Running V W}
    (h : reserveNode env ⟨t, w⟩ = .ok false s) :
    t.chains.nodes.isFull = true
      ∧ ∃ w', env.reserve ((t.chains.nodes.grownRoom + 1) * env.slotBytes) w = (false, w') := by
  unfold reserveNode at h
  rw [Op.run_read_bind] at h
  dsimp only at h
  split at h
  · have hbytes : ∀ bytes, Op.world (env.reserveBytes bytes) (⟨t, w⟩ : Running V W)
        = .ok (env.reserve bytes w).1 ⟨t, (env.reserve bytes w).2⟩ := fun _ => rfl
    rw [hbytes] at h
    injection h with hfalse
    exact ⟨‹_›, _, Prod.ext hfalse rfl⟩
  · cases h

theorem refuses_of_grantNode {v : V} {e : AllocError} {w : W} {s : Running V W}
    (h : grantNode env v ⟨t, w⟩ = .ok (.error e) s) : RefusesNode env w t e := by
  obtain ⟨r, s₁, hrequest, hrest⟩ := Op.of_run_bind_ok h
  replace hrequest := Op.of_run_onPanic_ok hrequest
  have hgrant : Op.world (env.request .node 1) (⟨t, w⟩ : Running V W)
      = .ok (env.allocate .node 1 w).1 ⟨t, (env.allocate .node 1 w).2⟩ := rfl
  rw [hgrant] at hrequest
  injection hrequest with hr hs₁
  subst hs₁
  rcases r with e' | u
  · obtain rfl := eq_of_refuse hrest
    exact .denied (Prod.ext hr rfl)
  · obtain ⟨reserved, s₂, hreserve, hback⟩ := Op.of_run_bind_ok hrest
    cases reserved with
    | true => cases hback
    | false =>
        obtain ⟨hfull, w₂, hshort⟩ := reserve_of_reserveNode (Op.of_run_onPanic_ok hreserve)
        obtain ⟨u', s₃, -, hrefuse⟩ := Op.of_run_bind_ok hback
        obtain rfl := eq_of_refuse hrefuse
        exact .unreserved (Prod.ext hr rfl) (if_pos hfull) hshort

theorem refuses_of_link {p : Chains.Place} {v : V} {hash : UInt64} {e : AllocError} {w : W}
    {s : Running V W} (h : link env p v hash ⟨t, w⟩ = .ok (.error e) s) :
    RefusesNode env w t e := by
  obtain ⟨u, s₁, hplace, hrest⟩ := Op.of_run_bind_ok h
  have hsame : s₁ = ⟨t, w⟩ := by
    replace hplace := Op.of_run_onPanic_ok hplace
    unfold requirePlace Op.query at hplace
    split at hplace
    · cases hplace
      rfl
    · cases hplace
  subst hsame
  obtain ⟨r, s₂, hgrant, hend⟩ := Op.of_run_bind_ok hrest
  rcases r with e' | u'
  · cases hend
    exact refuses_of_grantNode hgrant
  · cases hend

/-- What an insertion does after it was prepared is done under its fence, and refused only if the
node is. -/
theorem refused_of_prepare_bind (hwf : t.chains.WellFormed) (hfence : t.fence = none)
    {op : Operation} {v : V} {w : W} {e : AllocError} {s : Running V W}
    {g : Except AllocError (UInt64 × Option ArenaKey) → Op W V (Except AllocError α)}
    (h : (prepare env op v >>= g) ⟨t, w⟩ = .ok (.error e) s)
    (herror : ∀ e' s₁, g (.error e') s₁ = .ok (.error e) s → e = e')
    (hok : ∀ hash found m w₁, m.fence = none → g (.ok (hash, found)) ⟨m, w₁⟩ = .ok (.error e) s →
      (op = .insertNew → found = none) ∧ RefusesNode env w₁ m e) :
    InsertionRefused env w t op v e := by
  obtain ⟨m, hwide, hm⟩ := exists_leaves_rehash hwf hfence env (t.size + 1) w
  have hmfence := hwide.fence.trans hfence
  obtain ⟨r, w₁, hprepare, hrest⟩ :=
    (leaves_prepare (hwide.wellFormed hwf) hmfence hm).of_run_bind_ok h
  rcases r with e' | ⟨hash, found⟩
  · obtain rfl := herror e' _ hrest
    obtain ⟨r, s₁, hroom, hend⟩ := Op.of_run_bind_ok hprepare
    replace hroom : rehash env (t.size + 1) ⟨t, w⟩ = .ok r s₁ := (Op.of_run_onPanic_ok hroom :)
    rcases r with e' | u
    · obtain rfl := eq_of_refuse hend
      exact .room (refused_of_rehash hwf hfence hroom).2
    · obtain ⟨sought, s₂, -, hreturn⟩ := Op.of_run_bind_ok hend
      cases hreturn
  · obtain ⟨hlinks, hrefused⟩ := hok hash found m w₁ hmfence hrest
    exact .node hprepare hlinks hrefused

theorem refused_of_insertNew (hwf : t.chains.WellFormed) (hfence : t.fence = none) {v : V} {w : W}
    {e : AllocError} {s : Running V W} (h : insertNew env v ⟨t, w⟩ = .ok (.error e) s) :
    InsertionRefused env w t .insertNew v e := by
  refine refused_of_prepare_bind hwf hfence h (fun e' s₁ hend => ?_)
    fun hash found m w₁ hm hend => ?_
  · cases hend
    rfl
  · cases found with
    | some k => cases hend
    | none =>
        refine ⟨fun _ => rfl, ?_⟩
        obtain ⟨s₁, hbody, -⟩ := Op.of_run_fenced_ok hm hend
        rw [Op.run_read_bind] at hbody
        obtain ⟨r, s₂, hlink, hreturn⟩ := Op.of_run_bind_ok hbody
        rcases r with e' | c
        · cases hreturn
          exact refuses_of_link (t := m.fencedBy (some .insertNew)) hlink
        · cases hreturn

theorem refused_of_insertAny (hwf : t.chains.WellFormed) (hfence : t.fence = none) {v : V} {w : W}
    {e : AllocError} {s : Running V W} (h : insertAny env v ⟨t, w⟩ = .ok (.error e) s) :
    InsertionRefused env w t .insertAny v e := by
  refine refused_of_prepare_bind hwf hfence h (fun e' s₁ hend => ?_)
    fun hash found m w₁ hm hend => ?_
  · cases hend
    rfl
  · refine ⟨nofun, ?_⟩
    obtain ⟨s₁, hbody, -⟩ := Op.of_run_fenced_ok hm hend
    rw [Op.run_read_bind] at hbody
    exact refuses_of_link (t := m.fencedBy (some .insertAny)) hbody

/-! ## Removal -/

theorem returnUnit_of_ok {v : V} {w w' : W} {u : Unit}
    (h : env.deallocate .node 1 w = .ok u w') :
    returnUnit env v ⟨t, w⟩ = .ok (some v) ⟨t, w'⟩ :=
  Op.run_bind_ok (Op.run_onPanic_ok (Op.run_world_ok h) _)

theorem returnUnit_of_error {v : V} {w w' : W} {p : Panic}
    (h : env.deallocate .node 1 w = .error p w') :
    ∃ w'', returnUnit env v ⟨t, w⟩ = .error p ⟨t, w''⟩ :=
  ⟨_, Op.run_bind_error (Op.run_onPanic_error (Op.run_world_error h) _) _⟩

theorem failsOn_of_disposeOp {v : V} {s s' : Running V W} {p : Panic}
    (h : env.disposeOp v s = .error p s') : env.FailsOn s.table v p ∧ s'.table = s.table := by
  obtain ⟨seen, w⟩ := s
  cases hrun : env.dispose seen v w with
  | ok u w' =>
      have hok : env.disposeOp v ⟨seen, w⟩ = .ok u ⟨seen, w'⟩ := by
        unfold Environment.disposeOp Op.call
        simp only [hrun]
      rw [hok] at h
      cases h
  | error q w' =>
      have herror : env.disposeOp v ⟨seen, w⟩ = .error q ⟨seen, w'⟩ := by
        unfold Environment.disposeOp Op.call
        simp only [hrun]
      rw [herror] at h
      cases h
      exact ⟨Or.inl ⟨w, w', hrun⟩, rfl⟩

theorem failsOn_of_giveUp {v : V} {s s' : Running V W} {p : Panic}
    (h : giveUp env v s = .error p s') : env.FailsOn s.table v p := by
  obtain ⟨seen, w⟩ := s
  cases hrun : env.deallocate .node 1 w with
  | ok u w' =>
      unfold giveUp at h
      rw [Op.run_bind_ok (returnUnit_of_ok hrun)] at h
      exact (failsOn_of_disposeOp h).1
  | error q w' =>
      obtain ⟨w'', hreturn⟩ := returnUnit_of_error (t := seen) (v := v) hrun
      unfold giveUp at h
      rw [Op.run_bind_error hreturn] at h
      cases h
      exact Or.inr ⟨.node, 1, w, w', hrun⟩

theorem cutAt_of_failsOn (hwf : t.chains.WellFormed) {xs : List (Element V)} {e : Element V}
    {p : Panic}
    (h : env.FailsOn ((t.withoutAll (Chains.keysOf (xs ++ [e]))).fencedBy f) e.value p) :
    CutAt env f t xs e p (t.withoutAll (Chains.keysOf (xs ++ [e]))) :=
  ⟨rfl, h, fun i => congrFun (hwf.withoutAll _).row_eq i⟩

/-- A loop over elements that panics is cut at one of them. -/
theorem cutAt_of_takeOut (hwf : t.chains.WellFormed) {es : List (Element V)} {w : W} {p : Panic}
    {s : Running V W} (h : takeOut env es ⟨t.fencedBy f, w⟩ = .error p s) :
    ∃ xs e ys t', es = xs ++ e :: ys ∧ s.table = t'.fencedBy f ∧ CutAt env f t xs e p t' := by
  have hspec := takeOut_spec (f := f) env es t w
  rw [h] at hspec
  obtain ⟨xs, e, ys, w', hsplit, htable, hpanic⟩ := hspec
  rw [htable] at hpanic
  exact ⟨xs, e, ys, _, hsplit, htable, cutAt_of_failsOn hwf (failsOn_of_giveUp hpanic)⟩

/-- The element at a cursor is gone before anything can panic, and the cursor after it was found
before that. -/
theorem removeAt_spec (env : Environment V K W) (hfence : t.fence = none)
    (hwf : t.chains.WellFormed) (op : Operation) {c : Cursor} {k : ArenaKey} {n : Node V}
    (hcell : t.cell c = .ok (k, n)) (w : W) :
    match removeAt env op c ⟨t, w⟩ with
    | .ok r s => r = (t.cursor (t.chains.successor k), n.value) ∧ s.table = t.without k
    | .error p s => env.toSupply.Raises p ∧ s.table = t.without k := by
  have hdown : (t.without k).fencedBy none = t.without k := fencedBy_eq hfence
  have hfinish : removeAt env op c ⟨t.fencedBy none, w⟩ = _ := removeAt_eq hwf hcell w
  rw [fencedBy_eq hfence] at hfinish
  rw [hfinish]
  cases hrun : env.deallocate .node 1 w with
  | ok u w' =>
      have hbody := Op.run_bind_ok (g := fun _ => pure (t.cursor (t.chains.successor k), n.value))
        (returnUnit_of_ok (t := (t.without k).fencedBy (some op)) (v := n.value) hrun)
      unfold finishRemoval
      rw [Op.run_fenced_ok hbody]
      exact ⟨rfl, hdown⟩
  | error p w' =>
      obtain ⟨w'', hreturn⟩ :=
        returnUnit_of_error (t := (t.without k).fencedBy (some op)) (v := n.value) hrun
      unfold finishRemoval
      rw [Op.run_fenced_error (Op.run_bind_error hreturn _)]
      exact ⟨⟨.node, 1, w, w', hrun⟩, hdown⟩

/-- Erasing at a cursor that is accepted panics, if at all, without the element. -/
theorem cutAt_of_erase (hfence : t.fence = none) (hwf : t.chains.WellFormed) {c : Cursor}
    {k : ArenaKey} {n : Node V} (hcell : t.cell c = .ok (k, n)) {w : W} {p : Panic}
    {s : Running V W} (h : erase env c ⟨t, w⟩ = .error p s) :
    CutAt env none t [] ⟨k, n.value, n.hash⟩ p s.table := by
  have hspec := removeAt_spec env hfence hwf .erase hcell w
  have hdown : (t.without k).fencedBy none = t.without k := fencedBy_eq hfence
  rcases Op.of_run_bind_error h with hrun | ⟨⟨next, v⟩, ⟨t', w'⟩, hrun, hrest⟩
  · rw [hrun] at hspec
    rw [show s.table = t.without k from hspec.2]
    exact cutAt_of_failsOn hwf (Or.inr hspec.1)
  · rw [hrun] at hspec
    obtain ⟨hout, rfl⟩ : _ ∧ t' = t.without k := hspec
    obtain rfl : v = n.value := congrArg Prod.snd hout
    rcases Op.of_run_bind_error hrest with hdispose | ⟨u, s', -, hreturn⟩
    · obtain ⟨hfails, htable⟩ := failsOn_of_disposeOp hdispose
      rw [htable]
      refine cutAt_of_failsOn hwf ?_
      show env.FailsOn ((t.without k).fencedBy none) n.value p
      rw [hdown]
      exact hfails
    · cases hreturn

theorem cutAt_of_remove (hfence : t.fence = none) (hwf : t.chains.WellFormed) {c : Cursor}
    {k : ArenaKey} {n : Node V} (hcell : t.cell c = .ok (k, n)) {w : W} {p : Panic}
    {s : Running V W} (h : remove env c ⟨t, w⟩ = .error p s) :
    CutAt env none t [] ⟨k, n.value, n.hash⟩ p s.table := by
  have hspec := removeAt_spec env hfence hwf .remove hcell w
  rcases Op.of_run_bind_error h with hrun | ⟨r, s', -, hreturn⟩
  · rw [hrun] at hspec
    rw [show s.table = t.without k from hspec.2]
    exact cutAt_of_failsOn hwf (Or.inr hspec.1)
  · cases hreturn

/-- Where erasing the run of `q` was cut. Either the run was not found, or it was found and
stands in its row between `before` and `after`; of it the elements `xs` and `e` are gone. -/
inductive RunCut (env : Environment V K W) (w : W) (t : Table V) (q : K) (p : Panic) :
    Table V → Prop
  | seeking {w' : W} (sought : Op.fenced .eraseRun (runOf env q) ⟨t, w⟩ = .error p ⟨t, w'⟩) :
      RunCut env w t q p t
  | erasing {r : Run} {w' : W} {hash : UInt64} {before xs ys after : List (Element V)}
      {e : Element V} {t' : Table V}
      (found : Op.fenced .eraseRun (runOf env q) ⟨t, w⟩ = .ok (some r) ⟨t, w'⟩)
      (row : t.homeRow hash = before ++ ((xs ++ e :: ys) ++ after))
      (first : (xs ++ e :: ys).head?.map (·.key) = some r.first)
      (count : (xs ++ e :: ys).length = r.count)
      (cut : CutAt env none t xs e p t')
      (left : t'.homeRow hash = before ++ (ys ++ after)) : RunCut env w t q p t'

/-- Where clearing the table was cut: what is left is what comes after `e` in the traversal. -/
inductive ClearCut (env : Environment V K W) (t : Table V) (p : Panic) : Table V → Prop
  | clearing {xs ys : List (Element V)} {e : Element V} {t' : Table V}
      (elements : t.chains.elements = xs ++ e :: ys) (cut : CutAt env (some .clear) t xs e p t')
      (left : t'.chains.elements = ys) : ClearCut env t p t'

theorem CutAt.fence {xs : List (Element V)} {e : Element V} {p : Panic} {t' : Table V}
    (h : CutAt env f t xs e p t') : t'.fence = t.fence := by
  rw [h.table]
  rfl

/-- In a row that is cut, what was not reached stays between what stands around. -/
theorem CutAt.homeRow (hwf : t.chains.WellFormed) {xs : List (Element V)} {e : Element V}
    {p : Panic} {t' : Table V} (h : CutAt env f t xs e p t') {hash : UInt64}
    {before ys after : List (Element V)}
    (hrow : t.homeRow hash = before ++ ((xs ++ e :: ys) ++ after)) :
    t'.homeRow hash = before ++ (ys ++ after) := by
  have hcount : t'.chains.bucketCount = t.chains.bucketCount := by
    rw [h.table]
    exact Chains.bucketCount_withoutAll _
  have hsplit : t.homeRow hash = before ++ ((xs ++ [e]) ++ (ys ++ after)) := by
    rw [hrow]
    simp
  have hnodup := hwf.nodup (t.chains.buckets.home hash)
  rw [show t.chains.row _ = _ from hsplit] at hnodup
  rw [Table.homeRow, Buckets.home_congr hcount, h.row, show t.chains.row _ = _ from hsplit,
    Chains.filter_key_notMem hnodup]

/-- A run that is sought under a fence is found if there is one, and nothing changes. -/
theorem runOf_spec (env : Environment V K W) (hfence : t.fence = none) (hwf : t.chains.WellFormed)
    (op : Operation) (q : K) (w : W) :
    match Op.fenced op (runOf env q) ⟨t, w⟩ with
    | .ok r s => s.table = t ∧ ∃ hash,
        (Contract.wild (fun _ => True) (· = t) : Contract V K W).IsRun hash q (t.homeRow hash) r
    | .error _ s => s.table = t := by
  have hkeeps : (Contract.wild (fun _ => True) (· = t) : Contract V K W).Keeps none 0 t
      (.fenced op (runOf env q)) _ :=
    (keeps_runOf (Contract.obeyed_anything env (· = t)) q).fenced
  have hends := hkeeps w rfl hwf
  have hdown : t.fencedBy none = t := fencedBy_eq hfence
  rw [hdown] at hends
  cases hrun : Op.fenced op (runOf env q) ⟨t, w⟩ with
  | ok r s =>
      rw [hrun] at hends
      obtain ⟨d, t', htable, rfl, -, -, -, hash, -, hr⟩ := hends
      exact ⟨htable.trans hdown, hash, hr⟩
  | error p s =>
      rw [hrun] at hends
      obtain ⟨t', htable, rfl, -⟩ := hends
      exact htable.trans hdown

theorem runCut_of_eraseRun (hfence : t.fence = none) (hwf : t.chains.WellFormed) {q : K} {w : W}
    {p : Panic} {s : Running V W} (h : eraseRun env q ⟨t, w⟩ = .error p s) :
    RunCut env w t q p s.table := by
  have hsought := runOf_spec env hfence hwf .eraseRun q w
  have hdown : t.fencedBy none = t := fencedBy_eq hfence
  rcases Op.of_run_bind_error h with hrun | ⟨r, ⟨m, w'⟩, hrun, hrest⟩
  · rw [hrun] at hsought
    obtain ⟨table, w'⟩ := s
    obtain rfl : table = t := hsought
    exact .seeking hrun
  · rw [hrun] at hsought
    obtain ⟨rfl, hash, hr⟩ : m = t ∧ _ := hsought
    cases r with
    | none => cases hrest
    | some r =>
        obtain ⟨before, ms, after, hspans⟩ := hr
        rcases Op.of_run_bind_error hrest with halong | ⟨u, s', -, hreturn⟩
        · rw [← hdown, eraseAlong_run hwf hspans w'] at halong
          obtain ⟨xs, e, ys, t', rfl, htable', hcut⟩ := cutAt_of_takeOut hwf halong
          rw [htable', fencedBy_eq (hcut.fence.trans hfence)]
          have hfirst : (xs ++ e :: ys).head?.map (·.key) = some r.first := by
            obtain ⟨m, hm, hkey, -⟩ := hspans.start
            rw [List.head?_append_of_ne_nil _
              (List.append_ne_nil_of_right_ne_nil _ (by simp))] at hm
            rw [show _ = some m from hm, ← hkey]
            rfl
          exact .erasing hrun hspans.split hfirst hspans.count.symm hcut
            (hcut.homeRow hwf hspans.split)
        · cases hreturn

theorem clearCut_of_clear (hfence : t.fence = none) (hwf : t.chains.WellFormed) {w : W}
    {p : Panic} {s : Running V W} (h : clear env ⟨t, w⟩ = .error p s) :
    ClearCut env t p s.table := by
  have hclear : clear env ⟨t, w⟩ = Op.fenced .clear
      (clearBuckets env (List.range t.bucketCount))
      ⟨t.fencedBy none, env.report (.clearing t.size t.bucketCount) w⟩ := by
    rw [fencedBy_eq hfence]
    rfl
  rw [hclear] at h
  cases hrun : clearBuckets env (List.range t.bucketCount)
      ⟨t.fencedBy (some .clear), env.report (.clearing t.size t.bucketCount) w⟩ with
  | ok u s' =>
      rw [Op.run_fenced_ok hrun] at h
      cases h
  | error q s' =>
      rw [Op.run_fenced_error hrun] at h
      cases h
      rw [clearBuckets_range hwf] at hrun
      obtain ⟨xs, e, ys, t', helements, htable, hcut⟩ := cutAt_of_takeOut hwf hrun
      have hleft : t'.chains.elements = ys := by
        have hsplit : t.chains.elements = [] ++ ((xs ++ [e]) ++ ys) := by
          rw [helements]
          simp
        have hnodup := hwf.nodup_elements
        rw [hsplit] at hnodup
        rw [hcut.table]
        show (t.chains.withoutAll _).elements = ys
        rw [hwf.elements_withoutAll, hsplit, Chains.filter_key_notMem hnodup]
        rfl
      have hdown : s'.table.fencedBy none = t' := by
        rw [htable]
        exact fencedBy_eq (hcut.fence.trans hfence)
      show ClearCut env t p (s'.table.fencedBy none)
      rw [hdown]
      exact .clearing helements hcut hleft

end Table

end SeparateChaining
