import SeparateChaining.Proofs.Outcome

/-!
# A table is a bag of values

Command by command, what a steady table answers and leaves is what the
bag says. The lookups are complete because the table is keyed, and
every change keeps it so. From an empty table on every run therefore
simulates a run of a bag (`Table.simulates_bag`).
-/

namespace SeparateChaining

variable {V K W α : Type}

namespace Command

variable {p : Policies V K} {env : Environment V K W} {held : W → Debt → Prop}
  {s : Running V W} {cmd : Command V K}

open Contract Table

/-! ## Lookups -/

section Lookups

variable (hp : p.Coherent) (henv : env.Follows p held) (hs : Steady p held s)

include hp henv hs

theorem comes_find (q : K) : (find q : Command V K).Comes p env held s := by
  refine comes_still hs (keeps_find (obeyed_exact henv) q) rfl fun c hc => ⟨rfl, ?_⟩
  obtain ⟨hash, l, rfl, hl, rfl⟩ := hc
  rcases hs.keyed.found hp says_exact hs.sound.wellFormed hl with ⟨rfl, hnone⟩ | ⟨k, rfl, hsome⟩
  · exact ⟨⟨fun _ => hnone, fun _ => rfl⟩, fun hend => nomatch hend⟩
  · refine ⟨⟨fun hend => (nomatch hend), fun hnone => ?_⟩, fun _ => hsome⟩
    obtain ⟨v, hv, -, hq⟩ := hsome
    rw [hnone v hv] at hq
    cases hq

theorem comes_contains (q : K) : (contains q : Command V K).Comes p env held s := by
  refine comes_still hs (keeps_contains (obeyed_exact henv) q) rfl fun b hb => ⟨rfl, ?_⟩
  obtain ⟨hash, l, rfl, hl, rfl⟩ := hb
  rcases hs.keyed.found hp says_exact hs.sound.wellFormed hl
    with ⟨rfl, hnone⟩ | ⟨k, rfl, v, hv, -, hq⟩
  · refine ⟨fun hsome => (nomatch hsome), fun hsome => ?_⟩
    obtain ⟨v, hv, hq⟩ := hsome
    rw [hnone v hv] at hq
    cases hq
  · exact ⟨fun _ => ⟨v, hv, hq⟩, fun _ => rfl⟩

theorem comes_count (q : K) : (count q : Command V K).Comes p env held s := by
  refine comes_still hs (keeps_count (obeyed_exact henv) q) rfl fun n hn => ⟨rfl, ?_⟩
  obtain ⟨hash, r, rfl, hr, rfl⟩ := hn
  obtain ⟨xs, ms, zs, hstretch⟩ := hs.keyed.stretch_of_isRun hp says_exact hs.sound.wellFormed hr
  rw [hstretch.countP_bag]
  exact hstretch.count

theorem comes_range (q : K) : (range q : Command V K).Comes p env held s := by
  refine comes_still hs (g := fun c => .cursors c.1 c.2) (keeps_range (obeyed_exact henv) q) rfl
    fun c hc => ⟨rfl, ?_⟩
  obtain ⟨hash, r, rfl, hr, rfl⟩ := hc
  obtain ⟨xs, ms, zs, hstretch⟩ := hs.keyed.stretch_of_isRun hp says_exact hs.sound.wellFormed hr
  refine ⟨ms.map (·.value), ?_, hstretch.filter_bag.symm⟩
  rw [hstretch.range]
  exact hs.sound.wellFormed.walk_eq hstretch.split

theorem comes_iteratorOf (q : K) : (iteratorOf q : Command V K).Comes p env held s := by
  refine comes_still hs (g := fun it => .values it.toList) (keeps_iteratorOf (obeyed_exact henv) q)
    rfl fun it hit => ⟨rfl, ?_⟩
  obtain ⟨hash, r, rfl, hr, rfl⟩ := hit
  obtain ⟨xs, ms, zs, hstretch⟩ := hs.keyed.stretch_of_isRun hp says_exact hs.sound.wellFormed hr
  rw [hstretch.filter_bag, hstretch.iterator, hs.sound.wellFormed.toList_eq hstretch.split]

end Lookups

/-! ## Insertions -/

section Insertions

variable (hp : p.Coherent) (hs : Steady p held s)

include hp hs

theorem refused_of_widened {d : Debt} {t' : Table V} (hd : d = 0)
    (hwide : s.table.Widened t') : Refused p s.table d t' :=
  ⟨hd, hwide.bag hs.sound.wellFormed, hs.keyed.widened hp hs.sound.wellFormed hwide⟩

theorem offered {v : V} {r : Placement V} {t' : Table V}
    (h : (exact p held).Placed s.table v r t') :
    Offered p s.table t' v r ∧ t'.Keyed p := by
  have hwf := hs.sound.wellFormed
  cases h with
  | @linked mid k hash room key hashed new =>
      obtain rfl : k = p.extract v := key
      obtain rfl : hash = p.hash (p.extract v) := hashed
      have widened : s.table.Widened _ := room ▸ widened_roomFor hwf _
      have hkeyed := hs.keyed.widened hp hwf widened
      have hwf' := widened.wellFormed hwf
      have hnone := hkeyed.none_of_firstMatch hp says_exact hwf' new
      have hfits := fits_homePlace mid (p.hash (p.extract v))
      refine ⟨⟨fun u hu => ?_, ?_, ?_⟩, hkeyed.linked_home hp hwf' hnone⟩
      · rw [← widened.bag hwf] at hu
        obtain ⟨e, he, rfl⟩ := mem_bag.1 hu
        exact hnone e he
      · rw [bag_linked hwf' hfits, widened.bag hwf]
      · exact get_linked ..
  | @resident _ k hash x room key hashed found =>
      obtain rfl : k = p.extract v := key
      obtain rfl : hash = p.hash (p.extract v) := hashed
      have widened : s.table.Widened _ := room ▸ widened_roomFor hwf _
      have hkeyed := hs.keyed.widened hp hwf widened
      rcases hkeyed.found hp says_exact (widened.wellFormed hwf) found with ⟨hx, -⟩ | ⟨k, hk, hu⟩
      · cases hx
      · rw [widened.bag hwf] at hu
        exact ⟨⟨rfl, widened.bag hwf, hu⟩, hkeyed⟩

theorem added {v : V} {c : Cursor} {t' : Table V} (h : (exact p held).Added s.table v c t') :
    (t'.bag = v ::ₘ s.table.bag ∧ t'.get c = .ok v) ∧ t'.Keyed p := by
  have hwf := hs.sound.wellFormed
  cases h with
  | @alone mid k hash room key hashed new =>
      obtain rfl : k = p.extract v := key
      obtain rfl : hash = p.hash (p.extract v) := hashed
      have widened : s.table.Widened _ := room ▸ widened_roomFor hwf _
      have hkeyed := hs.keyed.widened hp hwf widened
      have hwf' := widened.wellFormed hwf
      have hnone := hkeyed.none_of_firstMatch hp says_exact hwf' new
      refine ⟨⟨?_, get_linked ..⟩, hkeyed.linked_home hp hwf' hnone⟩
      rw [bag_linked hwf' (fits_homePlace mid _), widened.bag hwf]
  | @beside mid k hash x room key hashed found =>
      obtain rfl : k = p.extract v := key
      obtain rfl : hash = p.hash (p.extract v) := hashed
      have widened : s.table.Widened _ := room ▸ widened_roomFor hwf _
      have hkeyed := hs.keyed.widened hp hwf widened
      have hwf' := widened.wellFormed hwf
      obtain ⟨xs, e, ys, hrow, rfl, hq⟩ := match_of_firstMatch says_exact found
      refine ⟨⟨?_, get_linked ..⟩, hkeyed.linked_after hp hwf' hrow hq⟩
      rw [bag_linked hwf' (fits_after hrow), widened.bag hwf]

end Insertions

section Storage

variable (hp : p.Coherent) (henv : env.Follows p held) (hs : Steady p held s)

include hp henv hs

theorem comes_insertNew (v : V) : (insertNew v : Command V K).Comes p env held s := by
  refine comes_granted hs
    (keeps_insertNew (obeyed_exact henv) (grows_exact.to _ _) links_exact v) rfl (fun _ _ => rfl)
    (fun _ _ h => refused_of_insertNew hs.sound.wellFormed hs.sound.fence h)
    (fun r d t' _ hr => ?_) fun e d t' hr => ?_
  · obtain ⟨hoffered, hkeyed⟩ := offered hp hs hr.2
    exact ⟨hr.1, hoffered, fun _ => hkeyed⟩
  · exact refused_of_widened hp hs hr.1 (hr.2.1.widened hs.sound.wellFormed)

theorem comes_insertNew! (v : V) : (insertNew! v : Command V K).Comes p env held s := by
  refine comes_granted! hs (g := fun r => .placement (.ok r))
    (keeps_insertNew (obeyed_exact henv) (grows_exact.to _ _) links_exact v) rfl
    (fun _ _ => rfl) (fun _ _ h => refused_of_insertNew hs.sound.wellFormed hs.sound.fence h)
    (fun r d t' _ hr => ?_) fun e d t' hr => ?_
  · obtain ⟨hoffered, hkeyed⟩ := offered hp hs hr.2
    exact ⟨hr.1, hoffered, fun _ => hkeyed⟩
  · exact refused_of_widened hp hs hr.1 (hr.2.1.widened hs.sound.wellFormed)

theorem comes_insertAny (v : V) : (insertAny v : Command V K).Comes p env held s := by
  refine comes_granted hs
    (keeps_insertAny (obeyed_exact henv) (grows_exact.to _ _) links_exact v) rfl (fun _ _ => rfl)
    (fun _ _ h => refused_of_insertAny hs.sound.wellFormed hs.sound.fence h)
    (fun c d t' _ hc => ?_) fun e d t' hr => ?_
  · obtain ⟨hadded, hkeyed⟩ := added hp hs hc.2
    exact ⟨hc.1, hadded, fun _ => hkeyed⟩
  · exact refused_of_widened hp hs hr.1 (hr.2.1.widened hs.sound.wellFormed)

theorem comes_insertAny! (v : V) : (insertAny! v : Command V K).Comes p env held s := by
  refine comes_granted! hs (g := fun c => .position (.ok c))
    (keeps_insertAny (obeyed_exact henv) (grows_exact.to _ _) links_exact v) rfl
    (fun _ _ => rfl) (fun _ _ h => refused_of_insertAny hs.sound.wellFormed hs.sound.fence h)
    (fun c d t' _ hc => ?_) fun e d t' hr => ?_
  · obtain ⟨hadded, hkeyed⟩ := added hp hs hc.2
    exact ⟨hc.1, hadded, fun _ => hkeyed⟩
  · exact refused_of_widened hp hs hr.1 (hr.2.1.widened hs.sound.wellFormed)

omit henv in
theorem well_roomFor {a : Answer V} {d : Debt} {t' : Table V} {hint : Nat}
    (hsim : t'.bag = s.table.bag → cmd.Simulates p s.table t' a) (hd : d = 0)
    (hroom : t' = s.table.roomFor hint) : Well p s.table cmd a d t' := by
  have hwide : s.table.Widened t' := hroom ▸ widened_roomFor hs.sound.wellFormed hint
  exact ⟨hd, hsim (hwide.bag hs.sound.wellFormed),
    fun _ => hs.keyed.widened hp hs.sound.wellFormed hwide⟩

theorem comes_rehash (hint : Nat) : (rehash hint : Command V K).Comes p env held s := by
  refine comes_granted hs (keeps_rehash (obeyed_exact henv) (grows_exact.to _ _)) rfl
    (fun _ _ => rfl) (fun _ _ h => (refused_of_rehash hs.sound.wellFormed hs.sound.fence h).2)
    (fun u d t' _ hr => ?_) fun e d t' hr => ?_
  · exact well_roomFor hp hs (fun hbag => hbag) hr.1 hr.2
  · exact refused_of_widened hp hs hr.1 (Or.inl hr.2.1)

theorem comes_rehash! (hint : Nat) : (rehash! hint : Command V K).Comes p env held s := by
  refine comes_granted! hs (g := fun u => .room (.ok u))
    (keeps_rehash (obeyed_exact henv) (grows_exact.to _ _)) rfl
    (fun _ _ => rfl) (fun _ _ h => (refused_of_rehash hs.sound.wellFormed hs.sound.fence h).2)
    (fun u d t' _ hr => ?_) fun e d t' hr => ?_
  · exact well_roomFor hp hs (fun hbag => hbag) hr.1 hr.2
  · exact refused_of_widened hp hs hr.1 (Or.inl hr.2.1)

theorem comes_reserve (n : Nat) : (reserve n : Command V K).Comes p env held s := by
  refine comes_granted hs (keeps_reserve (obeyed_exact henv) (grows_exact.to _ _)) rfl
    (fun _ _ => rfl) (fun _ _ h => (refused_of_reserve hs.sound.wellFormed hs.sound.fence h).2)
    (fun u d t' _ hr => ?_) fun e d t' hr => ?_
  · rcases hr with ⟨-, hr, -⟩ | hr
    · cases hr
    · exact well_roomFor hp hs (fun hbag => hbag) hr.1 hr.2
  · rcases hr with ⟨hlimit, -, hd, ht'⟩ | hr
    · exact refused_of_widened hp hs hd (Or.inl ht')
    · exact refused_of_widened hp hs hr.1 (Or.inl hr.2.1)

theorem comes_reserve! (n : Nat) : (reserve! n : Command V K).Comes p env held s := by
  refine comes_granted! hs (g := fun u => .room (.ok u))
    (keeps_reserve (obeyed_exact henv) (grows_exact.to _ _)) rfl
    (fun _ _ => rfl) (fun _ _ h => (refused_of_reserve hs.sound.wellFormed hs.sound.fence h).2)
    (fun u d t' _ hr => ?_) fun e d t' hr => ?_
  · rcases hr with ⟨-, hr, -⟩ | hr
    · cases hr
    · exact well_roomFor hp hs (fun hbag => hbag) hr.1 hr.2
  · rcases hr with ⟨hlimit, -, hd, ht'⟩ | hr
    · exact refused_of_widened hp hs hd (Or.inl ht')
    · exact refused_of_widened hp hs hr.1 (Or.inl hr.2.1)

end Storage

/-! ## Removals -/

section Removals

variable (henv : env.Follows p held) (hs : Steady p held s)

include hs

theorem bag_at {c : Cursor} {k : ArenaKey} {n : Node V} (hcell : s.table.cell c = .ok (k, n)) :
    s.table.get c = .ok n.value ∧ s.table.bag = n.value ::ₘ (s.table.without k).bag := by
  have hn := (element?_of_cell hcell).2
  refine ⟨by rw [Table.get, hcell]; rfl, ?_⟩
  exact bag_without hs.sound.wellFormed (Chains.element?_eq_some.2 ⟨n, hn, rfl⟩)

include henv

theorem comes_erase (c : Cursor) : (erase c : Command V K).Comes p env held s := by
  refine comes_at hs rfl ?_
  intro k n hcell
  refine comes_well hs (keeps_erase (obeyed_exact henv) unlinks_exact hcell) rfl ?_
  intro c' d t' _ hc
  obtain ⟨rfl, rfl, rfl⟩ := hc
  refine ⟨rfl, ⟨⟨n.value, bag_at hs hcell⟩, ?_⟩,
    fun _ => hs.keyed.without hs.sound.wellFormed k⟩
  rw [Table.next, hcell]
  rfl

theorem comes_remove (c : Cursor) : (remove c : Command V K).Comes p env held s := by
  refine comes_at hs rfl ?_
  intro k n hcell
  refine comes_well hs (keeps_remove (obeyed_exact henv) unlinks_exact hcell) rfl ?_
  intro v d t' _ hv
  obtain ⟨rfl, rfl, rfl⟩ := hv
  exact ⟨rfl, bag_at hs hcell, fun _ => hs.keyed.without hs.sound.wellFormed k⟩

theorem comes_eraseRun (hp : p.Coherent) (q : K) :
    (eraseRun q : Command V K).Comes p env held s := by
  have hwf := hs.sound.wellFormed
  refine comes_well hs (keeps_eraseRun (obeyed_exact henv) unlinks_exact q) rfl ?_
  intro n d t' _ hn
  rcases hn with ⟨rfl, hash, rfl, ⟨rfl, rfl, hnone⟩ | ⟨r, xs, ms, ys, hspans, rfl, rfl⟩⟩
  · have hstretch := stretch_none (hs.keyed.none_of_firstMatch hp says_exact hwf hnone)
    refine ⟨rfl, ⟨?_, hstretch.countP_bag.symm⟩, fun _ => hs.keyed⟩
    rw [hstretch.filter_not_bag, hstretch.bag_eq]
    simp
  · obtain ⟨xs, zs, hstretch⟩ := hs.keyed.stretch_of_spans hp says_exact hwf hspans
    refine ⟨rfl, ⟨?_, hstretch.countP_bag.symm⟩, fun _ => hs.keyed.withoutAll hwf _⟩
    rw [hstretch.filter_not_bag]
    exact bag_withoutAll hwf hstretch.split

theorem comes_clear : (clear : Command V K).Comes p env held s := by
  refine comes_well hs (g := fun _ => .done) (keeps_clear (obeyed_exact henv) unlinks_exact) rfl ?_
  intro u d t' _ hu
  obtain ⟨rfl, rfl, -⟩ := hu
  exact ⟨rfl, bag_cleared hs.sound.wellFormed, fun _ => hs.keyed.withoutAll hs.sound.wellFormed _⟩

omit henv in
theorem comes_modify (hp : p.Coherent) (c : Cursor) (f : V → V) :
    (modify c f : Command V K).Comes p env held s := by
  have hwf := hs.sound.wellFormed
  refine comes_at hs rfl ?_
  intro k n hcell
  have hn := (element?_of_cell hcell).2
  obtain ⟨hget, hbag⟩ := bag_at hs hcell
  refine comes_well hs (g := fun _ => .done) (keeps_modify edits_exact hcell f) rfl ?_
  intro u d t' _ hu
  obtain ⟨rfl, rfl, -⟩ := hu
  refine ⟨rfl, ⟨n.value, _, hget, hbag, bag_edited hwf hn f⟩, fun hkeys => ?_⟩
  exact hs.keyed.edited hp hwf hn (hkeys n.value hget)

end Removals

/-! ## Reading -/

section Reading

variable (hs : Steady p held s)

include hs

theorem comes_first : (first : Command V K).Comes p env held s :=
  comes_same hs rfl ⟨rfl, s.table.values, hs.sound.wellFormed.walk_all, rfl⟩

theorem comes_next (c : Cursor) : (next c : Command V K).Comes p env held s := by
  refine comes_at hs rfl ?_
  intro k n hcell
  have hnext : s.table.next c = .ok (s.table.cursor (s.table.chains.successor k)) := by
    rw [Table.next, hcell]
    rfl
  exact comes_same hs (Op.run_query_bind hnext _) ⟨rfl, hnext⟩

theorem comes_get (c : Cursor) : (get c : Command V K).Comes p env held s := by
  refine comes_at hs rfl ?_
  intro k n hcell
  have hn := (element?_of_cell hcell).2
  have hget : s.table.get c = .ok n.value := by
    rw [Table.get, hcell]
    rfl
  refine comes_same hs (Op.run_query_bind hget _)
    ⟨rfl, hget, mem_bag.2 ⟨⟨k, n.value, n.hash⟩, ?_, rfl⟩⟩
  exact hs.sound.wellFormed.mem_elements_iff.2 (Chains.element?_eq_some.2 ⟨n, hn, rfl⟩)

theorem comes_iterate : (iterate : Command V K).Comes p env held s :=
  comes_same hs rfl ⟨rfl, congrArg Multiset.ofList hs.sound.wellFormed.iterator_eq⟩

theorem comes_bucketSize (i : Nat) : (bucketSize i : Command V K).Comes p env held s := by
  by_cases hi : i < s.table.bucketCount
  · exact comes_same hs (Op.run_query_bind (if_pos hi) _) rfl
  · have hpanic : s.table.bucketSize i = .error (.bucketOutOfRange s.table.bucketCount i) :=
      if_neg hi
    exact comes_of_run (Op.run_bind_error (Op.run_query_error hpanic) _) (Or.inr ⟨_, rfl⟩)
      (.misused (Or.inr ⟨i, rfl, Nat.le_of_not_lt hi, rfl⟩) rfl) fun _ => hs

end Reading

theorem comes (hp : p.Coherent) (henv : env.Follows p held) (hs : Steady p held s)
    (cmd : Command V K) : cmd.Comes p env held s := by
  cases cmd with
  | insertNew v => exact comes_insertNew hp henv hs v
  | insertNew! v => exact comes_insertNew! hp henv hs v
  | insertAny v => exact comes_insertAny hp henv hs v
  | insertAny! v => exact comes_insertAny! hp henv hs v
  | find q => exact comes_find hp henv hs q
  | contains q => exact comes_contains hp henv hs q
  | count q => exact comes_count hp henv hs q
  | range q => exact comes_range hp henv hs q
  | iteratorOf q => exact comes_iteratorOf hp henv hs q
  | homeBucket q =>
      exact comes_still hs (keeps_homeBucket (obeyed_exact henv) q) rfl fun _ _ => rfl
  | check => exact comes_still hs (keeps_check (obeyed_exact henv)) rfl fun _ _ => rfl
  | erase c => exact comes_erase henv hs c
  | remove c => exact comes_remove henv hs c
  | eraseRun q => exact comes_eraseRun henv hs hp q
  | clear => exact comes_clear henv hs
  | rehash hint => exact comes_rehash hp henv hs hint
  | rehash! hint => exact comes_rehash! hp henv hs hint
  | reserve n => exact comes_reserve hp henv hs n
  | reserve! n => exact comes_reserve! hp henv hs n
  | first => exact comes_first hs
  | past => exact comes_same hs rfl ⟨rfl, rfl⟩
  | next c => exact comes_next hs c
  | get c => exact comes_get hs c
  | modify c f => exact comes_modify hs hp c f
  | iterate => exact comes_iterate hs
  | bucketSize i => exact comes_bucketSize hs i

/-! ## Runs -/

/-- A run that changes no key keeps the table steady. -/
theorem steady_after (hp : p.Coherent) (henv : env.Follows p held) (hs : Steady p held s)
    {cmds : List (Command V K)} (hkeys : KeysKept env p cmds s) :
    Steady p held (after env cmds s) := by
  induction cmds generalizing s with
  | nil => exact hs
  | cons cmd cmds ih =>
      obtain ⟨hkeep, hrest⟩ := hkeys
      exact ih ((comes hp henv hs cmd).2 hkeep) hrest

end Command

/-- Numbers are their own keys, and equal if they end in the same digit. -/
def Policies.lastDigit : Policies Nat Nat where
  extract := id
  hash k := (k % 10).toUInt64
  keyEq a b := a % 10 == b % 10

/-- Such numbers, with storage from a budget. -/
def Policies.onBudget : Environment Nat Nat Budget := lastDigit.environment (Budget.supply 8 8)

theorem Policies.coherent_lastDigit : lastDigit.Coherent :=
  .of_iff (· % 10) (fun _ _ => beq_iff_eq) fun _ _ h => congrArg Nat.toUInt64 h

namespace Table

variable {p : Policies V K} {env : Environment V K W} {held : W → Debt → Prop}

open Command (after KeysKept)
open Policies (lastDigit onBudget coherent_lastDigit)

/-- A new table is steady, and its bag is empty. -/
theorem steady_create (henv : env.Follows p held) {w : W} (hw : held w 0) (id capacity : Nat) :
    match create env.toSupply V id capacity w with
    | .ok (.ok t) w' => Steady p held ⟨t, w'⟩ ∧ t.bag = 0
    | .ok (.error e) _ => env.RefusesBuckets (env.fitted capacity w) (Ladder.fit capacity) e
    | .error _ _ => False := by
  have hpos := (Ladder.bounds_fit capacity).1
  have huses := uses_create (Contract.obeyed_exact henv) id capacity w
    (show (Contract.exact p held).inv 0 default w from ⟨rfl, hw⟩)
  rcases hrun : create env.toSupply V id capacity w with ⟨e | t, w'⟩ | ⟨q, w'⟩
  · exact refuses_of_create hrun
  · rw [hrun] at huses
    obtain ⟨d, ⟨-, hheld⟩, rfl, rfl⟩ := huses
    refine ⟨⟨⟨wellFormed_ofBuckets hpos, rfl⟩, keyed_ofBuckets p id hpos, ?_⟩,
      bag_ofBuckets id hpos⟩
    -- the debt of the new buckets is now what the table holds
    have hlive : live 0 (default : Table V)
        ((0 : Debt).add .bucket
          (ofBuckets id (.replicate (Ladder.fit capacity)) : Table V).bucketCount)
        = live 0 (ofBuckets id (.replicate (Ladder.fit capacity)) : Table V) 0 := by
      refine congrArg (Debt.mk 0) ?_
      show 0 + 0 + (0 + _) = 0 + _ + 0
      omega
    rw [← hlive]
    exact hheld
  · rw [hrun] at huses
    exact huses.2

/-- Under coherent policies a table simulates a bag of values. A new table is that of the empty bag,
if its buckets are not refused, and after every run of commands that changes no key the size of the
table is that of its bag and each further command does to the bag what it should. If what it
requests is refused, which a supply that refuses nothing does not do, or if it is misused, it leaves
the bag. -/
theorem simulates_bag (hp : p.Coherent) (henv : env.Follows p held) {w : W} (hw : held w 0)
    (id capacity : Nat) :
    match create env.toSupply V id capacity w with
    | .ok (.ok t) w' => t.bag = 0 ∧ ∀ cmds : List (Command V K), KeysKept env p cmds ⟨t, w'⟩ →
        (after env cmds ⟨t, w'⟩).table.size = (after env cmds ⟨t, w'⟩).table.bag.card
          ∧ ∀ cmd : Command V K, cmd.Outcome p env (after env cmds ⟨t, w'⟩)
              (cmd.run env (after env cmds ⟨t, w'⟩))
    | .ok (.error e) _ => env.RefusesBuckets (env.fitted capacity w) (Ladder.fit capacity) e
    | .error _ _ => False := by
  have hcreate := steady_create henv hw id capacity
  rcases hrun : create env.toSupply V id capacity w with ⟨e | t, w'⟩ | ⟨q, w'⟩
  · rw [hrun] at hcreate
    exact hcreate
  · rw [hrun] at hcreate
    obtain ⟨hsteady, hempty⟩ := hcreate
    refine ⟨hempty, fun cmds hkeys => ?_⟩
    have hafter := Command.steady_after hp henv hsteady hkeys
    exact ⟨(card_bag hafter.sound.wellFormed).symm, fun cmd => (Command.comes hp henv hafter cmd).1⟩
  · rw [hrun] at hcreate
    exact hcreate

/-- Three numbers that end in one digit are offered to a table that has room for two. The third is
refused, and the bag stays. -/
theorem simulates_bag_refused :
    lastDigit.Coherent ∧ onBudget.Follows lastDigit Budget.Counts ∧ (Budget.ofLimit 55).Counts 0
      ∧ create onBudget.toSupply Nat 0 0 (.ofLimit 55)
        = .ok (.ok (.ofBuckets 0 (.replicate 53))) ⟨55, 0, 53, 0⟩
      ∧ KeysKept onBudget lastDigit
          [.insertAny 3, .insertAny 13, .insertAny 23, .modify ⟨some ⟨0, 0⟩, 0, 0⟩ (· + 20)]
          ⟨.ofBuckets 0 (.replicate 53), ⟨55, 0, 53, 0⟩⟩
      ∧ ∃ s, s = after onBudget
          [.insertAny 3, .insertAny 13, .insertAny 23, .modify ⟨some ⟨0, 0⟩, 0, 0⟩ (· + 20)]
          ⟨.ofBuckets 0 (.replicate 53), ⟨55, 0, 53, 0⟩⟩
        ∧ s.table.values = [23, 13] ∧ s.table.size = s.table.bag.card
        ∧ ∀ cmd : Command Nat Nat, cmd.Outcome lastDigit onBudget s (cmd.run onBudget s) := by
  have hcreate : create onBudget.toSupply Nat 0 0 (.ofLimit 55)
      = .ok (.ok (.ofBuckets 0 (.replicate 53))) ⟨55, 0, 53, 0⟩ := by
    have hfit : Ladder.fit 0 = 53 := by decide +kernel
    have hnotice : Ladder.notice? 0 = none := by decide +kernel
    unfold create Supply.fitBuckets
    rw [hfit, hnotice]
    rfl
  have hkeys : KeysKept onBudget lastDigit
      [.insertAny 3, .insertAny 13, .insertAny 23, .modify ⟨some ⟨0, 0⟩, 0, 0⟩ (· + 20)]
      ⟨.ofBuckets 0 (.replicate 53), ⟨55, 0, 53, 0⟩⟩ := by
    refine ⟨trivial, trivial, trivial, fun v _ => ?_, trivial⟩
    show ((v + 20) % 10 == v % 10) = true
    exact beq_iff_eq.2 (by omega)
  have hfollows : onBudget.Follows lastDigit Budget.Counts := lastDigit.follows_budget 8 8
  have hbag := simulates_bag coherent_lastDigit hfollows (Budget.counts_ofLimit 55) 0 0
  rw [hcreate] at hbag
  exact ⟨coherent_lastDigit, hfollows, Budget.counts_ofLimit 55, hcreate, hkeys, _, rfl,
    by decide +kernel, hbag.2 _ hkeys⟩

end Table

end SeparateChaining
