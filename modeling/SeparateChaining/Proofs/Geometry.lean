import SeparateChaining.Proofs.History
import SeparateChaining.Proofs.Room
import SeparateChaining.Proofs.Table.Failure

/-!
# How bucket counts come about

A table has the buckets of the largest request for room that was
granted. A rehash asks for what its hint says, a reservation for so many
elements more, an insertion for one more, whatever becomes of it after
that. `Table.grants` says whether a request is granted, by carrying it
out: the request is the first thing that a command does, so it is
carried out on the same table and in the same world.

What a request leaves has one law (`geometry_rehash`): since `fit` is
the least rung that reaches its argument, a hint that the bucket count
reaches already makes no difference to the greater of the two. All that
a command does after its request, and all that other commands do, leaves
buckets and growths alone (`sameGeometry_run`).

Growths are counted where there are more buckets than before
(`Table.Counts`), but for one that is cut short (`Table.CutsShort`): the
nodes have moved, and the supply panics when it is given the old buckets
back.
-/

namespace SeparateChaining

variable {V K W α β : Type}

namespace Op

theorem left_return (op : Op W V α) (g : α → β) (s : Running V W) :
    left ((do return g (← op) : Op W V β) s) = left (op s) := by
  cases hrun : op s with
  | ok a s' =>
      rw [run_bind_ok hrun]
      rfl
  | error p s' =>
      rw [run_bind_error hrun]
      rfl

theorem left_infallible (op : Op W V (Except AllocError α)) (s : Running V W) :
    left (op.infallible s) = left (op s) := by
  rcases hrun : op s with ⟨e | a, s'⟩ | ⟨p, s'⟩
  · rw [run_infallible_error hrun]
    rfl
  · rw [run_infallible_ok hrun]
    rfl
  · rw [show op.infallible s = .error p s' from run_bind_error hrun _]
    rfl

theorem Leaves.bindLeft {op : Op W V α} {g : α → Op W V β} {t : Table V} {s : Running V W}
    {P : Table V → Prop} (hop : Leaves t (op s)) (h : P t)
    (hg : ∀ a w, P (left (g a ⟨t, w⟩))) : P (left ((op >>= g) s)) := by
  cases hrun : op s with
  | ok a s' =>
      rw [hrun] at hop
      obtain ⟨table, w⟩ := s'
      obtain rfl : table = t := hop
      rw [run_bind_ok hrun]
      exact hg a w
  | error p s' =>
      rw [hrun] at hop
      rw [run_bind_error hrun]
      show P s'.table
      rwa [show s'.table = t from hop]

end Op

/-- A property of tables that an operation keeps holds of the table that is left. -/
theorem Contract.Keeps.left {P : Panic → Prop} {I : Table V → Prop} {t : Table V} {d : Debt}
    {op : Op W V α} {post : α → Debt → Table V → Prop}
    (h : (Contract.wild P I : Contract V K W).Keeps none d t op post) (ht : t.Sound) (hI : I t)
    (hfence : ∀ u, I u → I (u.fencedBy none)) (w : W) : I (Op.left (op ⟨t, w⟩)) := by
  cases hrun : op ⟨t, w⟩ with
  | ok a s =>
      obtain ⟨d, u, htable, hu, -⟩ := h.of_run_ok ht.fence ht.wellFormed hI hrun
      rw [Op.left, htable]
      exact hfence u hu
  | error p s =>
      obtain ⟨u, htable, hu, -⟩ := h.of_run_error ht.fence ht.wellFormed hI hrun
      rw [Op.left, htable]
      exact hfence u hu

namespace Table

variable {env : Environment V K W} {t m : Table V} {f : Option Operation} {w : W}

open Op (Leaves left)

/-- The table `u` has as many buckets as `t`, and has grown as often. -/
def SameGeometry (t u : Table V) : Prop := u.bucketCount = t.bucketCount ∧ u.growths = t.growths

/-! ## Requests -/

/-- Whether a request for room is granted. One that panics is if the table has grown by then. -/
def grants (env : Environment V K W) (w : W) (t : Table V) (hint : Nat) : Bool :=
  match rehash env hint ⟨t, w⟩ with
  | .ok (.ok _) _ => true
  | .ok (.error _) _ => false
  | .error _ s => t.bucketCount < s.table.bucketCount

/-- In the world `w` the growth of `t` to room for `hint` elements panics when there are more
buckets already, so that it is not counted. -/
def CutsShort (env : Environment V K W) (w : W) (t : Table V) (hint : Nat) : Prop :=
  ∃ p s, rehash env hint ⟨t, w⟩ = .error p s ∧ t.bucketCount < s.table.bucketCount

/-- Between `t` and `t'` one growth is counted if there are more buckets, and none if that growth
was cut short. -/
structure Counts (cut : Prop) (t t' : Table V) : Prop where
  whole : ¬cut → t'.growths = t.growths + if t.bucketCount < t'.bucketCount then 1 else 0
  short : cut → t.bucketCount < t'.bucketCount ∧ t'.growths = t.growths

theorem counts_refl {cut : Prop} (hcut : ¬cut) (t : Table V) : t.Counts cut t where
  whole _ := by
    rw [if_neg (Nat.lt_irrefl _)]
    rfl
  short h := absurd h hcut

/-- A panic on the return of the old buckets is what cuts a growth short. -/
theorem CutsShort.panics (ht : t.Sound) {hint : Nat} (h : t.CutsShort env w hint) :
    ∃ p s w₁ w₂, rehash env hint ⟨t, w⟩ = .error p s
      ∧ env.deallocate .bucket t.bucketCount w₁ = .error p w₂ := by
  obtain ⟨p, s, hrun, hmore⟩ := h
  have hspec := rehash_spec ht.wellFormed ht.fence env hint w
  rw [hrun] at hspec
  rcases hspec.eq_or with hsame | ⟨-, -, w₁, w₂, hpanic⟩
  · rw [hsame] at hmore
    exact absurd hmore (Nat.lt_irrefl _)
  · exact ⟨p, s, w₁, w₂, hrun, hpanic⟩

theorem geometry_roomFor (ht : t.chains.WellFormed) (hrung : t.bucketCount ∈ Ladder.rungs)
    (hint : Nat) : (t.roomFor hint).bucketCount = max t.bucketCount (Ladder.fit hint) := by
  unfold roomFor
  split
  · rename_i hstays
    refine (Nat.max_eq_left ?_).symm
    rcases hstays with hle | hfit
    · exact Ladder.fit_le_of_le hrung hle
    · exact hfit
  · rename_i hshort
    rw [show (t.moved (Ladder.fit hint)).counted.bucketCount = _ from bucketCount_moved ht hint]
    exact (Nat.max_eq_right (Nat.le_of_not_le (not_or.1 hshort).2)).symm

theorem counts_roomFor {t : Table V} (ht : t.chains.WellFormed) {cut : Prop} (hcut : ¬cut)
    (hint : Nat) : t.Counts cut (t.roomFor hint) := by
  unfold roomFor
  split
  · exact counts_refl hcut t
  · rename_i hshort
    refine ⟨fun _ => ?_, fun h => absurd h hcut⟩
    rw [show (t.moved (Ladder.fit hint)).counted.bucketCount = _ from bucketCount_moved ht hint,
      if_pos (Nat.lt_of_not_le (not_or.1 hshort).2)]
    exact congrArg (· + 1) (growths_moved t _)

/-- What a request for room makes of the bucket count. -/
theorem geometry_rehash (ht : t.Sound) (hrung : t.bucketCount ∈ Ladder.rungs)
    (env : Environment V K W) (hint : Nat) (w : W) :
    (left (rehash env hint ⟨t, w⟩)).bucketCount
      = if t.grants env w hint then max t.bucketCount (Ladder.fit hint) else t.bucketCount := by
  have hspec := rehash_spec ht.wellFormed ht.fence env hint w
  unfold grants
  rcases hrun : rehash env hint ⟨t, w⟩ with ⟨e | u, s⟩ | ⟨p, s⟩
  · rw [hrun] at hspec
    exact congrArg bucketCount hspec.1
  · rw [hrun] at hspec
    exact (congrArg bucketCount hspec).trans (geometry_roomFor ht.wellFormed hrung hint)
  · rw [hrun] at hspec
    rcases hspec.eq_or with hsame | ⟨hdue, hmoved, -⟩
    · simp only [left, hsame, Nat.lt_irrefl, decide_false, Bool.false_eq_true, if_false]
    · simp only [left, hmoved, bucketCount_moved ht.wellFormed, hdue.lt_fit, decide_true, if_true]
      exact (Nat.max_eq_right (Nat.le_of_lt hdue.lt_fit)).symm

/-- That a growth is counted. -/
theorem counts_rehash (ht : t.Sound) (env : Environment V K W) (hint : Nat) (w : W) :
    t.Counts (t.CutsShort env w hint) (left (rehash env hint ⟨t, w⟩)) := by
  have hspec := rehash_spec ht.wellFormed ht.fence env hint w
  have hshort : t.CutsShort env w hint →
      t.bucketCount < (left (rehash env hint ⟨t, w⟩)).bucketCount := by
    rintro ⟨p, s, hrun, hmore⟩
    rwa [hrun]
  have hanswers : ∀ r s, rehash env hint ⟨t, w⟩ = .ok r s → ¬t.CutsShort env w hint := by
    rintro r s hrun ⟨p, s', hpanic, -⟩
    cases hrun.symm.trans hpanic
  rcases hrun : rehash env hint ⟨t, w⟩ with ⟨e | u, s⟩ | ⟨p, s⟩
  · rw [hrun] at hspec
    rw [left, hspec.1]
    exact counts_refl (hanswers _ _ hrun) t
  · rw [hrun] at hspec
    rw [left, show s.table = t.roomFor hint from hspec]
    exact counts_roomFor ht.wellFormed (hanswers _ _ hrun) hint
  · rw [hrun] at hspec hshort
    rw [left] at hshort ⊢
    rcases hspec.eq_or with hsame | ⟨hdue, hmoved, -⟩
    · rw [hsame] at hshort ⊢
      exact counts_refl (fun hcut => Nat.lt_irrefl _ (hshort hcut)) t
    · have hmore : t.bucketCount < s.table.bucketCount := by
        rw [hmoved, bucketCount_moved ht.wellFormed]
        exact hdue.lt_fit
      refine ⟨fun hwhole => absurd ⟨p, s, hrun, hmore⟩ hwhole, fun _ => ⟨hmore, ?_⟩⟩
      rw [hmoved]
      exact growths_moved t _

theorem sound_left_rehash (ht : t.Sound) (env : Environment V K W) (hint : Nat) (w : W) :
    (left (rehash env hint ⟨t, w⟩)).Sound := by
  obtain ⟨m, hwide, hm⟩ := exists_leaves_rehash ht.wellFormed ht.fence env hint w
  rw [(Op.leaves_left _).unique hm]
  exact ⟨hwide.wellFormed ht.wellFormed, hwide.fence.trans ht.fence⟩

/-! ## What comes after a request -/

theorem sameGeometry_link (hwf : t.chains.WellFormed) (p : Chains.Place) (value : V)
    (hash : UInt64) (w : W) :
    t.SameGeometry (left (link env p value hash ⟨t.fencedBy f, w⟩)) := by
  have hsame : t.SameGeometry (t.fencedBy f) := ⟨rfl, rfl⟩
  unfold link
  refine ((Op.leaves_query _ _).onPanic _).bindLeft hsame fun _ w => ?_
  refine ((keeps_grantNode (Contract.obeyed_anything env _) value).leaves hwf w).bindLeft hsame ?_
  intro r w
  cases r with
  | error e => exact hsame
  | ok u => exact ⟨Chains.bucketCount_insertAt .., rfl⟩

theorem sameGeometry_fenced {op : Operation} {body : Op W V α} (hfence : t.fence = none)
    (h : t.SameGeometry (left (body ⟨t.fencedBy (some op), w⟩))) :
    t.SameGeometry (left (Op.fenced op body ⟨t, w⟩)) := by
  rw [← fencedBy_eq hfence]
  cases hrun : body ⟨t.fencedBy (some op), w⟩ with
  | ok a s =>
      rw [hrun] at h
      rw [Op.run_fenced_ok hrun]
      exact h
  | error p s =>
      rw [hrun] at h
      rw [Op.run_fenced_error hrun]
      exact h

theorem sameGeometry_insertNew (hwf : m.chains.WellFormed) (hfence : m.fence = none)
    (hm : Leaves m (rehash env (t.size + 1) ⟨t, w⟩)) (value : V) :
    m.SameGeometry (left (insertNew env value ⟨t, w⟩)) := by
  have hsame : m.SameGeometry m := ⟨rfl, rfl⟩
  refine (leaves_prepare hwf hfence hm).bindLeft hsame fun r w => ?_
  rcases r with e | ⟨hash, k | k⟩
  · exact hsame
  · refine sameGeometry_fenced hfence ?_
    show m.SameGeometry (left ((do
      return (← link env (m.homePlace hash) value hash).map Placement.linked : Op W V _) ⟨_, w⟩))
    rw [Op.left_return]
    exact sameGeometry_link hwf _ value hash w
  · exact hsame

theorem sameGeometry_insertAny (hwf : m.chains.WellFormed) (hfence : m.fence = none)
    (hm : Leaves m (rehash env (t.size + 1) ⟨t, w⟩)) (value : V) :
    m.SameGeometry (left (insertAny env value ⟨t, w⟩)) := by
  have hsame : m.SameGeometry m := ⟨rfl, rfl⟩
  refine (leaves_prepare hwf hfence hm).bindLeft hsame fun r w => ?_
  rcases r with e | ⟨hash, found⟩
  · exact hsame
  · exact sameGeometry_fenced hfence (sameGeometry_link hwf _ value hash w)

end Table

/-! ## Commands -/

namespace Command

variable {env : Environment V K W} {cmd : Command V K} {t : Table V}

open Op (left)
open Table

/-- The number of elements that a command asks room for. A reservation of more than can be counted
fails before it asks. -/
def asks (t : Table V) : Command V K → Option Nat
  | insertNew _ | insertNew! _ | insertAny _ | insertAny! _ => some (t.size + 1)
  | rehash hint | rehash! hint => some hint
  | reserve n | reserve! n => if countLimit ≤ t.size + n then none else some (t.size + n)
  | _ => none

/-- What the table is once the command has asked for room. -/
def asked (env : Environment V K W) (t : Table V) (w : W) (cmd : Command V K) : Table V :=
  match cmd.asks t with
  | some hint => left (Table.rehash env hint ⟨t, w⟩)
  | none => t

theorem sameGeometry_of_still (ht : t.Sound) (hroom : cmd.makesRoom = false)
    (hnew : cmd.isInsertion = false) (env : Environment V K W) (w : W) :
    t.SameGeometry (left (cmd.run env ⟨t, w⟩)) := by
  have hkeeps : (Contract.wild (fun _ => True) t.SameGeometry : Contract V K W).Keeps none 0 t
      (cmd.run env) IssuedBy := by
    refine keeps_run_of cmd (Contract.obeyed_anything env _) (fun h => ?_) (fun h => ?_) ?_ ?_
      fun _ _ => trivial
    · rw [hroom] at h
      cases h
    · rw [hnew] at h
      cases h
    · intro _ u k e w _ _ h
      exact ⟨(Chains.bucketCount_without k).trans h.1, h.2⟩
    · intro _ u k f n w _ _ h
      exact h
  exact hkeeps.left ht ⟨rfl, rfl⟩ (fun _ h => h) w

theorem sameGeometry_reserve (env : Environment V K W) (n : Nat) (w : W) :
    ((reserve n).asked env t w).SameGeometry (left (Table.reserve env n ⟨t, w⟩)) := by
  by_cases hlimit : countLimit ≤ t.size + n
  · have hasks : (reserve n : Command V K).asks t = none := if_pos hlimit
    rw [asked, hasks, reserve_of_overflow hlimit]
    exact ⟨rfl, rfl⟩
  · have hasks : (reserve n : Command V K).asks t = some (t.size + n) := if_neg hlimit
    rw [asked, hasks, reserve_of_fits hlimit]
    exact ⟨rfl, rfl⟩

theorem left_run_insertNew (env : Environment V K W) (value : V) (s : Running V W) :
    left ((insertNew value).run env s) = left (Table.insertNew env value s) :=
  Op.left_return ..

theorem left_run_insertNew! (env : Environment V K W) (value : V) (s : Running V W) :
    left ((insertNew! value).run env s) = left (Table.insertNew env value s) :=
  (Op.left_return _ (fun r => Answer.placement (.ok r)) s).trans (Op.left_infallible ..)

theorem left_run_insertAny (env : Environment V K W) (value : V) (s : Running V W) :
    left ((insertAny value).run env s) = left (Table.insertAny env value s) :=
  Op.left_return ..

theorem left_run_insertAny! (env : Environment V K W) (value : V) (s : Running V W) :
    left ((insertAny! value).run env s) = left (Table.insertAny env value s) :=
  (Op.left_return _ (fun c => Answer.position (.ok c)) s).trans (Op.left_infallible ..)

/-- Whatever a command does once it has asked for room changes neither buckets nor growths. -/
theorem sameGeometry_run (ht : t.Sound) (env : Environment V K W) (cmd : Command V K) (w : W) :
    (cmd.asked env t w).SameGeometry (left (cmd.run env ⟨t, w⟩)) := by
  have hsound := fun hint => sound_left_rehash ht env hint w
  cases cmd with
  | insertNew value =>
      rw [left_run_insertNew]
      exact sameGeometry_insertNew (hsound _).wellFormed (hsound _).fence (Op.leaves_left _) value
  | insertNew! value =>
      rw [left_run_insertNew!]
      exact sameGeometry_insertNew (hsound _).wellFormed (hsound _).fence (Op.leaves_left _) value
  | insertAny value =>
      rw [left_run_insertAny]
      exact sameGeometry_insertAny (hsound _).wellFormed (hsound _).fence (Op.leaves_left _) value
  | insertAny! value =>
      rw [left_run_insertAny!]
      exact sameGeometry_insertAny (hsound _).wellFormed (hsound _).fence (Op.leaves_left _) value
  | rehash hint =>
      rw [run, Op.left_return]
      exact ⟨rfl, rfl⟩
  | rehash! hint =>
      rw [run, Op.left_return _ fun u => Answer.room (.ok u), Table.rehash!, Op.left_infallible]
      exact ⟨rfl, rfl⟩
  | reserve n =>
      rw [run, Op.left_return]
      exact sameGeometry_reserve env n w
  | reserve! n =>
      rw [run, Op.left_return _ fun u => Answer.room (.ok u), Table.reserve!, Op.left_infallible]
      exact sameGeometry_reserve env n w
  | _ => exact sameGeometry_of_still ht rfl rfl env w

/-- The hint of a command's request, if the request is granted. -/
def granted (env : Environment V K W) (w : W) (t : Table V) (cmd : Command V K) : Option Nat :=
  (cmd.asks t).filter (t.grants env w)

/-- A command raises the bucket count to what its request calls for, if that is granted, and leaves
it alone otherwise. -/
theorem geometry_run (ht : t.Sound) (hrung : t.bucketCount ∈ Ladder.rungs)
    (env : Environment V K W) (cmd : Command V K) (w : W) :
    (left (cmd.run env ⟨t, w⟩)).bucketCount
      = ((cmd.granted env w t).toList.map Ladder.fit).foldl max t.bucketCount := by
  rw [(sameGeometry_run ht env cmd w).1, asked, granted]
  cases hasks : cmd.asks t with
  | none => rfl
  | some hint =>
      simp only
      rw [geometry_rehash ht hrung env hint w, Option.filter]
      split
      · rfl
      · rfl

/-- In the world `w` the growth that the command makes of `t` is cut short. -/
def CutsShort (env : Environment V K W) (w : W) (t : Table V) (cmd : Command V K) : Prop :=
  ∃ hint, cmd.asks t = some hint ∧ t.CutsShort env w hint

/-- A growth that a command makes is counted once, unless it is cut short. -/
theorem counts_run (ht : t.Sound) (env : Environment V K W) (cmd : Command V K) (w : W) :
    t.Counts (cmd.CutsShort env w t) (left (cmd.run env ⟨t, w⟩)) := by
  obtain ⟨hcount, hgrowths⟩ := sameGeometry_run ht env cmd w
  suffices hasked : t.Counts (cmd.CutsShort env w t) (cmd.asked env t w) by
    refine ⟨fun hwhole => ?_, fun hcut => ?_⟩
    · rw [hcount, hgrowths]
      exact hasked.whole hwhole
    · rw [hcount, hgrowths]
      exact hasked.short hcut
  unfold asked CutsShort
  cases hasks : cmd.asks t with
  | none => exact counts_refl (fun ⟨_, hsome, _⟩ => nomatch hsome) t
  | some hint =>
      have hiff : (∃ n, some hint = some n ∧ t.CutsShort env w n) ↔ t.CutsShort env w hint :=
        ⟨fun ⟨_, hsome, hcut⟩ => Option.some.inj hsome ▸ hcut, fun hcut => ⟨hint, rfl, hcut⟩⟩
      rw [hiff]
      exact counts_rehash ht env hint w

/-- A command panics if the growth that it begins with does. -/
theorem run_of_panic {hint : Nat} (hasks : cmd.asks t = some hint) {w : W} {p : Panic}
    {s : Running V W} (h : Table.rehash env hint ⟨t, w⟩ = .error p s) :
    ∃ s', cmd.run env ⟨t, w⟩ = .error p s' := by
  have hreserve : ∀ n, (if countLimit ≤ t.size + n then none else some (t.size + n)) = some hint →
      Table.reserve env n ⟨t, w⟩ = .error p s := by
    intro n hn
    split at hn
    · cases hn
    · rw [reserve_of_fits ‹_›, Option.some.inj hn, h]
  cases cmd with
  | insertNew v =>
      obtain rfl := Option.some.inj hasks
      obtain ⟨s', hpanic⟩ := prepare_bind_of_panic h _
      exact ⟨s', Op.run_bind_error hpanic _⟩
  | insertNew! v =>
      obtain rfl := Option.some.inj hasks
      obtain ⟨s', hpanic⟩ := prepare_bind_of_panic h _
      exact ⟨s', Op.run_bind_error (Op.run_bind_error hpanic _) _⟩
  | insertAny v =>
      obtain rfl := Option.some.inj hasks
      obtain ⟨s', hpanic⟩ := prepare_bind_of_panic h _
      exact ⟨s', Op.run_bind_error hpanic _⟩
  | insertAny! v =>
      obtain rfl := Option.some.inj hasks
      obtain ⟨s', hpanic⟩ := prepare_bind_of_panic h _
      exact ⟨s', Op.run_bind_error (Op.run_bind_error hpanic _) _⟩
  | rehash n =>
      obtain rfl := Option.some.inj hasks
      exact ⟨s, Op.run_bind_error h _⟩
  | rehash! n =>
      obtain rfl := Option.some.inj hasks
      exact ⟨s, Op.run_bind_error (Op.run_bind_error h _) _⟩
  | reserve n => exact ⟨s, Op.run_bind_error (hreserve n hasks) _⟩
  | reserve! n => exact ⟨s, Op.run_bind_error (Op.run_bind_error (hreserve n hasks) _) _⟩
  | _ => cases hasks

end Command

/-! ## Runs -/

namespace Store

variable {env : Environment V K W} {s : Store V W} {i : Nat} {t t' : Table V}

/-- The hints of the requests that an action makes of the table in place `i` and that are
granted. -/
def grantedBy (env : Environment V K W) (s : Store V W) (i : Nat) (a : Action V K) : List Nat :=
  match a, s.table? i with
  | .on j cmd, some t => if j = i then (cmd.granted env s.world t).toList else []
  | _, _ => []

/-- The hints of all requests that are granted to the table in place `i` over a run. -/
def granted (env : Environment V K W) (s : Store V W) (i : Nat) : List (Action V K) → List Nat
  | [] => []
  | a :: acts => s.grantedBy env i a ++ (s.step env a).granted env i acts

/-- The growth that an action makes of the table in place `i` is cut short. -/
def CutsShort (env : Environment V K W) (s : Store V W) (i : Nat) (a : Action V K) : Prop :=
  ∃ t cmd, s.table? i = some t ∧ a = .on i cmd ∧ cmd.CutsShort env s.world t

/-- The action panics then, because the supply does when it gets the old buckets back. -/
theorem CutsShort.panics (hs : s.Sound) {a : Action V K} (h : s.CutsShort env i a) :
    ∃ t p s' w w', s.table? i = some t ∧ perform env a s = .error p s'
      ∧ env.deallocate .bucket t.bucketCount w = .error p w' := by
  obtain ⟨t, cmd, ht, rfl, hint, hasks, hcut⟩ := h
  obtain ⟨p, r, w, w', hrehash, hback⟩ := hcut.panics (hs.table i t ht).1
  obtain ⟨r', hrun⟩ := Command.run_of_panic hasks hrehash
  refine ⟨t, p, s.put i (some r'.table) r'.world, w, w', ht, ?_, hback⟩
  rw [perform_on ht, hrun]

theorem not_cutsShort_of_takesBack (hback : env.TakesBack) (hs : s.Sound) {a : Action V K} :
    ¬s.CutsShort env i a := by
  intro hcut
  obtain ⟨t, p, s', w, w', -, -, hpanic⟩ := hcut.panics hs
  obtain ⟨w₁, hreturn⟩ := hback .bucket t.bucketCount w
  cases hreturn.symm.trans hpanic

/-- What an action makes of the bucket count of a table that was there before it. -/
theorem geometry_step (hs : s.Sound) (ht : s.table? i = some t)
    (hrung : t.bucketCount ∈ Ladder.rungs) {a : Action V K}
    (ht' : (s.step env a).table? i = some t') :
    t'.bucketCount = ((s.grantedBy env i a).map Ladder.fit).foldl max t.bucketCount := by
  rcases eq_or_left_of_step hs ht ht' with ⟨elsewhere, rfl⟩ | ⟨cmd, rfl, rfl⟩
  · have hnone : s.grantedBy env i a = [] := by
      cases a with
      | on j cmd =>
          simp only [grantedBy, ht]
          exact if_neg fun hji => elsewhere cmd (congrArg (Action.on · cmd) hji)
      | _ => rfl
    rw [hnone]
    rfl
  · have hgranted : s.grantedBy env i (.on i cmd) = (cmd.granted env s.world t).toList := by
      simp only [grantedBy, ht, if_true]
    rw [hgranted]
    exact Command.geometry_run (hs.table i t ht).1 hrung env cmd s.world

/-- And of the count of its growths. -/
theorem counts_step (hs : s.Sound) (ht : s.table? i = some t) {a : Action V K}
    (ht' : (s.step env a).table? i = some t') : t.Counts (s.CutsShort env i a) t' := by
  rcases eq_or_left_of_step hs ht ht' with ⟨elsewhere, rfl⟩ | ⟨cmd, rfl, rfl⟩
  · exact Table.counts_refl (fun ⟨_, cmd, _, haction, _⟩ => elsewhere cmd haction) t'
  · have hiff : s.CutsShort env i (.on i cmd) ↔ cmd.CutsShort env s.world t := by
      refine ⟨?_, fun hcut => ⟨t, cmd, ht, rfl, hcut⟩⟩
      rintro ⟨t₀, cmd', ht₀, haction, hcut⟩
      cases ht.symm.trans ht₀
      cases haction
      exact hcut
    rw [hiff]
    exact Command.counts_run (hs.table i t ht).1 env cmd s.world

/-- The greatest of `b` buckets and of those that fit the requests granted over a run is what the
table in place `i` has after it. -/
def Governs (env : Environment V K W) (s : Store V W) (i b : Nat) : Prop :=
  ∀ acts t, (s.after env acts).table? i = some t →
    (b :: (s.granted env i acts).map Ladder.fit).max? = some t.bucketCount

/-- The run lemma: requests granted one after the other come to the greatest of them. -/
theorem governs (hs : s.Sound) (hroomy : s.Roomy) (ht : s.table? i = some t) :
    s.Governs env i t.bucketCount := by
  intro acts t' ht'
  induction acts generalizing s t with
  | nil =>
      obtain rfl := Option.some.inj (ht.symm.trans ht')
      rfl
  | cons a acts ih =>
      have hsound := hs.step env a
      obtain ⟨n, hsize, -⟩ := size_step hs env a
      have hlt := lt_of_table? ht
      obtain ⟨t₁, ht₁⟩ := table?_of_after hsound (by omega) ht'
      have hcount := geometry_step hs ht (hroomy i t ht).rung ht₁
      have hrest := ih hsound (hroomy.step hs env a) ht₁ ht'
      rw [List.max?_cons', hcount, ← List.foldl_append, ← List.map_append] at hrest
      rw [List.max?_cons']
      exact hrest

theorem le_of_governs {b : Nat} (h : s.Governs env i b) (acts : List (Action V K))
    (ht : (s.after env acts).table? i = some t) : b ≤ t.bucketCount := by
  have hmax := h acts t ht
  rw [List.max?_eq_some_iff] at hmax
  exact hmax.2 b (List.mem_cons_self ..)

theorem created_of_perform (hs : s.Sound) {capacity j : Nat} {s' : Store V W}
    (hrun : perform env (.create capacity) s = .ok (.created (.ok j)) s') :
    s'.table? j = some (.ofBuckets s.fresh (.replicate (Ladder.fit capacity))) := by
  cases performs_of_perform hs hrun with
  | @created capacity t w run =>
      have hspec := create_spec env s.fresh capacity s.world
      rw [run] at hspec
      rw [table?_place, if_pos rfl, show t = _ from hspec]

theorem copied_of_perform (hs : s.Sound) (ht : s.table? i = some t) {j : Nat} {s' : Store V W}
    (hrun : perform env (.copy i) s = .ok (.copied (some j)) s') :
    (∃ vs, s'.table? j = some (t.withValues s.fresh vs)
        ∧ List.Forall₂ env.Copied t.slotValues vs)
      ∧ s.table? j = none ∧ ∀ k, k ≠ j → s'.table? k = s.table? k := by
  cases performs_of_perform hs hrun with
  | @copied i t₀ t' w before run =>
      obtain rfl := Option.some.inj (ht.symm.trans before)
      have hspec := copy_spec (hs.table i t ht).1 env s.fresh s.world
      rw [run] at hspec
      obtain ⟨-, vs, rfl, hvs⟩ := hspec
      refine ⟨⟨vs, by rw [table?_place, if_pos rfl], hvs⟩, table?_size s, fun k hk => ?_⟩
      rw [table?_place, if_neg hk]
      rfl

/-- Where the buckets of the tables in a store come from, and when growths are counted. -/
structure Geometric (env : Environment V K W) (s : Store V W) : Prop where
  rung : ∀ i t, s.table? i = some t → t.bucketCount ∈ Ladder.rungs
    ∧ (t.size ≤ t.bucketCount ∨ t.bucketCount = Ladder.top)
  created : ∀ capacity j s', perform env (.create capacity) s = .ok (.created (.ok j)) s' →
    (∃ t, s'.table? j = some t ∧ t.bucketCount = Ladder.fit capacity)
      ∧ s'.Governs env j (Ladder.fit capacity)
  copied : ∀ i t j s', s.table? i = some t →
    perform env (.copy i) s = .ok (.copied (some j)) s' →
    (∃ t', s'.table? j = some t' ∧ t'.bucketCount = t.bucketCount)
      ∧ s'.Governs env j t.bucketCount
  governed : ∀ i t, s.table? i = some t → s.Governs env i t.bucketCount
  counted : ∀ i t a t', s.table? i = some t → (s.step env a).table? i = some t' →
    t.bucketCount ≤ t'.bucketCount ∧ t.Counts (s.CutsShort env i a) t'
  /-- Only a supply that panics when it gets buckets back cuts a growth short. -/
  cutShort : ∀ i a, s.CutsShort env i a →
    ∃ t p s' w w', s.table? i = some t ∧ perform env a s = .error p s'
      ∧ env.deallocate .bucket t.bucketCount w = .error p w'
  whole : env.TakesBack → ∀ i a, ¬s.CutsShort env i a

/-- In every store that a run leaves, whatever foreign code and the supply did and go on to do: a
table has a rung of the ladder for its bucket count, starts from the one that fits its capacity, or
from that of its original if it is a copy, and has at any later time the greatest of that and of
those that fit the requests granted to it. A growth is counted exactly when there are more buckets
than before, unless a panic of the supply cuts it short when the nodes have moved; then it is not
counted, and a supply that takes back what it is given does not do that. -/
theorem geometric_after (env : Environment V K W) (w : W) (acts : List (Action V K)) :
    ((ofWorld w : Store V W).after env acts).Geometric env := by
  have hsound := (sound_ofWorld (V := V) w).after env acts
  have hroomy := roomy_after (V := V) env w acts
  generalize (ofWorld w : Store V W).after env acts = s at hsound hroomy
  have hnew : ∀ a j t, (s.step env a).table? j = some t →
      (s.step env a).Governs env j t.bucketCount := fun a j t ht =>
    governs (hsound.step env a) (hroomy.step hsound env a) ht
  refine ⟨fun i t ht => ⟨(hroomy i t ht).rung, (hroomy i t ht).le_or_eq⟩,
    fun capacity j s' hrun => ?_, fun i t j s' ht hrun => ?_,
    fun i t ht => governs hsound hroomy ht, fun i t a t' ht ht' => ?_,
    fun i a hcut => hcut.panics hsound, fun hback i a => not_cutsShort_of_takesBack hback hsound⟩
  · have ht := created_of_perform hsound hrun
    have hstep : s.step env (.create capacity) = s' := congrArg left hrun
    have hcount : (Table.ofBuckets s.fresh (.replicate (Ladder.fit capacity))
        : Table V).bucketCount = Ladder.fit capacity := Buckets.size_replicate _
    have hgoverns := hnew (.create capacity) j _ (hstep ▸ ht)
    rw [hstep, hcount] at hgoverns
    exact ⟨⟨_, ht, hcount⟩, hgoverns⟩
  · obtain ⟨⟨vs, ht', -⟩, -⟩ := copied_of_perform hsound ht hrun
    have hstep : s.step env (.copy i) = s' := congrArg left hrun
    have hgoverns := hnew (.copy i) j _ (hstep ▸ ht')
    rw [hstep] at hgoverns
    exact ⟨⟨_, ht', rfl⟩, hgoverns⟩
  · have hgoverns : s.Governs env i t.bucketCount := governs hsound hroomy ht
    exact ⟨le_of_governs hgoverns [a] ht', counts_step hsound ht ht'⟩

end Store

end SeparateChaining
