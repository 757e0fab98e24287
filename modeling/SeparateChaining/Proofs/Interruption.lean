import SeparateChaining.Proofs.Bag
import SeparateChaining.Proofs.Denial
import SeparateChaining.Proofs.Representation
import SeparateChaining.Proofs.Tally

/-!
# What a panic leaves

Foreign code may panic wherever it is called: while a key is taken out,
hashed or compared, while a value is copied or disposed of, and while
storage goes back. A command that is cut short so leaves a table that is
sound in every respect, and a certain one (`Command.Cut`). One that only
asks changes nothing. A growth whose old buckets do not go back leaves the
new ones, and is not counted; an insertion leaves what its growth left.
A removal leaves the table without the elements up to the one whose
value panicked, and the others in their order. For a whole store: no
other table changes, a copy or a construction that panics makes none,
and a release that panics releases the table all the same (`Store.Cut`).
-/

namespace SeparateChaining

variable {V K W α : Type}

namespace Command

variable {env : Environment V K W} {cmd : Command V K} {t : Table V} {w : W} {p : Panic}
  {s : Running V W}

open Table

/-- A command run on `t` in the world `w` is cut short by the panic `p`, and `t'` is left. -/
def Cut (env : Environment V K W) (w : W) (t : Table V) (p : Panic) (t' : Table V) :
    Command V K → Prop
  | insertNew _ | insertNew! _ | insertAny _ | insertAny! _ =>
    Op.Leaves t' (Table.rehash env (t.size + 1) ⟨t, w⟩)
      ∧ (t.Spared t' ∨ GrowthCut env w t (t.size + 1) p t')
  | rehash hint => GrowthCut env w t hint p t'
  | rehash! hint => GrowthCut env w t hint p t'
      ∨ t' = t ∧ ∃ e, p = .allocationFailed e ∧ (rehash! hint).Denied env w t e
  | reserve n => GrowthCut env w t (t.size + n) p t'
  | reserve! n => GrowthCut env w t (t.size + n) p t'
      ∨ t' = t ∧ ∃ e, p = .allocationFailed e ∧ (reserve! n).Denied env w t e
  | erase c | remove c => t.cell c = .error p ∧ t' = t
      ∨ ∃ k n, t.cell c = .ok (k, n) ∧ CutAt env none t [] ⟨k, n.value, n.hash⟩ p t'
  | eraseRun q => RunCut env w t q p t'
  | clear => ClearCut env t p t'
  | _ => t' = t

/-- An operation that keeps every table leaves it, also when it panics. -/
theorem same_of_error {op : Op W V α} {post : α → Debt → Table V → Prop} (ht : t.Sound)
    (hkeeps : (Contract.wild (fun _ => True) (· = t) : Contract V K W).Keeps none 0 t op post)
    (h : op ⟨t, w⟩ = .error p s) : s.table = t := by
  have hleaves := hkeeps.leaves ht.wellFormed w
  rw [fencedBy_eq ht.fence, h] at hleaves
  exact hleaves

theorem same_of_query {q : Table V → Except Panic α}
    (h : Op.query q ⟨t, w⟩ = .error p s) : s.table = t := by
  have hleaves := Op.leaves_query q ⟨t, w⟩
  rw [h] at hleaves
  exact hleaves

/-- An insertion that fails leaves what its growth left, and panics if that does. -/
theorem cut_of_insertion {op : Op W V (Except AllocError α)} (ht : t.Sound)
    (hspares : ∀ m : Table V, m.chains.WellFormed → m.fence = none →
      Op.Leaves m (Table.rehash env (t.size + 1) ⟨t, w⟩) → Op.Spares m (op ⟨t, w⟩))
    (hpanics : ∀ q s', Table.rehash env (t.size + 1) ⟨t, w⟩ = .error q s' →
      ∃ s'', op ⟨t, w⟩ = .error q s'')
    (h : op ⟨t, w⟩ = .error p s ∨ ∃ e, op ⟨t, w⟩ = .ok (.error e) s ∧ p = .allocationFailed e) :
    Op.Leaves s.table (Table.rehash env (t.size + 1) ⟨t, w⟩)
      ∧ (t.Spared s.table ∨ GrowthCut env w t (t.size + 1) p s.table) := by
  obtain ⟨m, -, hm, hleft⟩ := exists_spares ht.wellFormed ht.fence hspares
  have htable : s.table = m := by
    rcases h with hrun | ⟨e, hrun, -⟩
    · rw [hrun] at hleft
      exact hleft
    · rw [hrun] at hleft
      exact hleft
  rw [htable]
  refine ⟨hm, ?_⟩
  have hspec := rehash_spec ht.wellFormed ht.fence env (t.size + 1) w
  rcases hrehash : Table.rehash env (t.size + 1) ⟨t, w⟩ with ⟨e | u, s₁⟩ | ⟨q, s₁⟩
  · rw [hrehash] at hspec hm
    exact Or.inl (Or.inl (Eq.trans hm.symm hspec.1))
  · rw [hrehash] at hspec hm
    exact Or.inl (Or.inr (Eq.trans hm.symm hspec))
  · obtain ⟨s₂, hop⟩ := hpanics q s₁ hrehash
    rw [hrehash] at hspec hm
    rcases h with hrun | ⟨e, hrun, -⟩
    · obtain rfl : q = p := by
        rw [hop] at hrun
        injection hrun
      rw [← show s₁.table = m from hm]
      exact Or.inr hspec
    · cases hop.symm.trans hrun

theorem growthCut_of_rehash (ht : t.Sound) {hint : Nat}
    (h : Table.rehash env hint ⟨t, w⟩ = .error p s) : GrowthCut env w t hint p s.table := by
  have hspec := rehash_spec ht.wellFormed ht.fence env hint w
  rwa [h] at hspec

theorem growthCut_of_reserve (ht : t.Sound) {n : Nat}
    (h : Table.reserve env n ⟨t, w⟩ = .error p s) :
    GrowthCut env w t (t.size + n) p s.table := by
  by_cases hlimit : countLimit ≤ t.size + n
  · rw [reserve_of_overflow hlimit] at h
    cases h
  · rw [reserve_of_fits hlimit] at h
    exact growthCut_of_rehash ht h

theorem cut_of_run (ht : t.Sound) (h : cmd.run env ⟨t, w⟩ = .error p s) :
    cmd.Cut env w t p s.table := by
  have henv := Contract.obeyed_anything env (· = t)
  cases cmd with
  | insertNew value =>
      exact cut_of_insertion ht (fun m hwf hfence hm => spares_insertNew hwf hfence hm value)
        (fun _ _ hpanic => prepare_bind_of_panic hpanic _) (Or.inl (Op.of_run_return_error h))
  | insertNew! value =>
      exact cut_of_insertion ht (fun m hwf hfence hm => spares_insertNew hwf hfence hm value)
        (fun _ _ hpanic => prepare_bind_of_panic hpanic _)
        (Op.of_run_infallible_error (Op.of_run_return_error h))
  | insertAny value =>
      exact cut_of_insertion ht (fun m hwf hfence hm => spares_insertAny hwf hfence hm value)
        (fun _ _ hpanic => prepare_bind_of_panic hpanic _) (Or.inl (Op.of_run_return_error h))
  | insertAny! value =>
      exact cut_of_insertion ht (fun m hwf hfence hm => spares_insertAny hwf hfence hm value)
        (fun _ _ hpanic => prepare_bind_of_panic hpanic _)
        (Op.of_run_infallible_error (Op.of_run_return_error h))
  | find key => exact same_of_error ht (keeps_find henv key) (Op.of_run_return_error h)
  | contains key => exact same_of_error ht (keeps_contains henv key) (Op.of_run_return_error h)
  | count key => exact same_of_error ht (keeps_count henv key) (Op.of_run_return_error h)
  | range key =>
      rcases Op.of_run_bind_error h with hrun | ⟨⟨start, stop⟩, s', -, hreturn⟩
      · exact same_of_error ht (keeps_range henv key) hrun
      · cases hreturn
  | iteratorOf key => exact same_of_error ht (keeps_iteratorOf henv key) (Op.of_run_return_error h)
  | homeBucket key => exact same_of_error ht (keeps_homeBucket henv key) (Op.of_run_return_error h)
  | check => exact same_of_error ht (keeps_check henv) (Op.of_run_return_error h)
  | erase c =>
      rcases hcell : t.cell c with q | ⟨k, n⟩
      · rw [run_of_cell_error rfl (s := ⟨t, w⟩) hcell] at h
        cases h
        exact Or.inl ⟨hcell, rfl⟩
      · exact Or.inr ⟨k, n, hcell,
          cutAt_of_erase ht.fence ht.wellFormed hcell (Op.of_run_return_error h)⟩
  | remove c =>
      rcases hcell : t.cell c with q | ⟨k, n⟩
      · rw [run_of_cell_error rfl (s := ⟨t, w⟩) hcell] at h
        cases h
        exact Or.inl ⟨hcell, rfl⟩
      · exact Or.inr ⟨k, n, hcell,
          cutAt_of_remove ht.fence ht.wellFormed hcell (Op.of_run_return_error h)⟩
  | eraseRun key => exact runCut_of_eraseRun ht.fence ht.wellFormed (Op.of_run_return_error h)
  | clear =>
      rcases Op.of_run_bind_error h with hrun | ⟨u, s', -, hreturn⟩
      · exact clearCut_of_clear ht.fence ht.wellFormed hrun
      · cases hreturn
  | rehash hint => exact growthCut_of_rehash ht (Op.of_run_return_error h)
  | rehash! hint =>
      rcases Op.of_run_infallible_error (Op.of_run_return_error h) with hrun | ⟨e, hrun, rfl⟩
      · exact Or.inl (growthCut_of_rehash ht hrun)
      · obtain ⟨hsame, hrefused⟩ := refused_of_rehash ht.wellFormed ht.fence hrun
        exact Or.inr ⟨hsame, e, rfl, hrefused⟩
  | reserve n => exact growthCut_of_reserve ht (Op.of_run_return_error h)
  | reserve! n =>
      rcases Op.of_run_infallible_error (Op.of_run_return_error h) with hrun | ⟨e, hrun, rfl⟩
      · exact Or.inl (growthCut_of_reserve ht hrun)
      · obtain ⟨hsame, hrefused⟩ := refused_of_reserve ht.wellFormed ht.fence hrun
        exact Or.inr ⟨hsame, e, rfl, hrefused⟩
  | first => cases h
  | past => cases h
  | iterate => cases h
  | next c => exact same_of_query (Op.of_run_return_error h)
  | get c => exact same_of_query (Op.of_run_return_error h)
  | bucketSize i => exact same_of_query (Op.of_run_return_error h)
  | modify c f =>
      rcases Op.of_run_bind_error h with hrun | ⟨u, s', -, hreturn⟩
      · unfold Op.update at hrun
        split at hrun
        · cases hrun
        · cases hrun
          rfl
      · cases hreturn

end Command

/-- Numbers that are their own keys, where disposing of 2 panics, and a record of what is
granted. -/
def Environment.brittle : Environment Nat Nat (Nat × Debt) :=
  ({ (Policies.mk id Nat.toUInt64 (· == ·)).environment .nodesLeft with
    dispose := fun _ v w => if v = 2 then .error (.caller "two") w else .ok () w }
    : Environment Nat Nat Nat).recorded

theorem Environment.tallies_brittle : brittle.Tallies fun w d => w.2 = d :=
  tallies_recorded Supply.nodesLeft_returns

namespace Store

variable {env : Environment V K W} {s s' : Store V W} {p : Panic}

/-- The panic that an action came to. -/
def panic? : EStateM.Result Panic (Store V W) α → Option Panic
  | .ok _ _ => none
  | .error p _ => some p

theorem of_panic? {r : EStateM.Result Panic (Store V W) α} (h : panic? r = some p) :
    r = .error p (left r) := by
  cases r with
  | ok a s => cases h
  | error q s =>
      cases h
      rfl

/-- An action is cut short by the panic `p`, and `s'` is left of the store `s`. -/
def Cut (env : Environment V K W) (s : Store V W) (p : Panic) (s' : Store V W) :
    Action V K → Prop
  | .create _ | .copy _ => ∀ j, s'.table? j = s.table? j
  | .drop i => s'.table? i = none ∧ ∀ j, j ≠ i → s'.table? j = s.table? j
  | .on i cmd => (∃ t t', s.table? i = some t ∧ s'.table? i = some t' ∧ cmd.Cut env s.world t p t')
      ∧ ∀ j, j ≠ i → s'.table? j = s.table? j

theorem cut_of_perform (hs : s.Sound) {a : Action V K} (hrun : perform env a s = .error p s') :
    s.Cut env p s' a := by
  cases performs_of_perform hs hrun with
  | @createPanicked capacity p w run => exact table?_place_none { s with world := w }
  | @copyPanicked i t p w before run => exact table?_place_none { s with world := w }
  | dropPanicked before run =>
      exact ⟨table?_put_self (lt_of_table? before) .., fun j hj => table?_put_ne hj ..⟩
  | @commandPanicked i cmd t p r before run =>
      exact ⟨⟨t, r.table, before, table?_put_self (lt_of_table? before) ..,
        Command.cut_of_run (hs.table i t before).1 run⟩, fun j hj => table?_put_ne hj ..⟩

/-- Wherever in an action foreign code panics, whatever the policies answer and the supply grants,
and after every run: every table is represented as it should be with its fence down, the action is
cut as `Cut` says, and every tally of what is granted is kept. -/
theorem cut_after (env : Environment V K W) (w : W) (acts : List (Action V K)) {a : Action V K}
    (hrun : perform env a ((ofWorld w).after env acts) = .error p s') :
    (∀ i t, s'.table? i = some t → t.Represented ∧ t.fence = none)
    ∧ ((ofWorld w).after env acts).Cut env p s' a
    ∧ ∀ held, env.Tallies held → held w 0 → s'.Tallied held := by
  have hsound := (sound_ofWorld (V := V) w).after env acts
  have hleft : ((ofWorld w).after env acts).step env a = s' := by
    rw [step, hrun]
    rfl
  have hsound' : s'.Sound := by
    rw [← hleft]
    exact hsound.step env a
  refine ⟨fun i t ht => ?_, cut_of_perform hsound hrun, fun held henv hw => ?_⟩
  · have ht' := (hsound'.table i t ht).1
    exact ⟨Table.represented ht'.wellFormed, ht'.fence⟩
  · rw [← hleft]
    exact (settled_perform henv hsound (tallied_after henv hw acts).2 a).left

/-- Clearing a table of three elements, of which the second panics, leaves the third. -/
theorem cut_after_clear :
    ∃ s s' : Store Nat (Nat × Debt),
      s = (ofWorld (53, 0)).after .brittle [.create 0, .on 0 (.insertNew 1),
        .on 0 (.insertNew 2), .on 0 (.insertNew 3)]
      ∧ perform .brittle (.on 0 .clear) s = .error (.caller "two") s'
      ∧ s.Cut .brittle (.caller "two") s' (.on 0 .clear)
      ∧ s'.Tallied (fun w d => w.2 = d)
      ∧ (s.table? 0).map Table.values = some [1, 2, 3]
      ∧ (s'.table? 0).map Table.values = some [3] := by
  have hrun := of_panic? (r := perform .brittle (.on 0 .clear) ((ofWorld (53, 0)).after .brittle
    [.create 0, .on 0 (.insertNew 1), .on 0 (.insertNew 2), .on 0 (.insertNew 3)]))
    (p := .caller "two") (by decide +kernel)
  obtain ⟨-, hcut, htallied⟩ := cut_after .brittle (53, 0) _ hrun
  exact ⟨_, _, rfl, hrun, hcut, htallied _ Environment.tallies_brittle rfl, by decide +kernel,
    by decide +kernel⟩

end Store

end SeparateChaining
