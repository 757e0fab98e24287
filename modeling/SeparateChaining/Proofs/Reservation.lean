import SeparateChaining.Proofs.Cursors
import SeparateChaining.Proofs.Geometry
import SeparateChaining.Proofs.Placement
import SeparateChaining.Proofs.Requests

/-!
# What a reservation is worth

A reservation of `n` leaves room for `n` elements more, and every
insertion uses up the room of one at most, whether it links its value,
finds an equal one or fails. So the room left, counted from the size as
it is, covers the insertions still to come (`Store.hasRoom_after`):
removals only make more of it. An insertion that has room does not grow
the table, nothing else does but another request, and on the last rung
of the ladder there is room for any number.
-/

namespace SeparateChaining

variable {V K W α : Type}

open Op (left Leaves Spares)

/-! ## One command -/

namespace Table

variable {env : Environment V K W} {t : Table V} {w : W}

/-- An insertion that fails leaves as many elements as there were. -/
theorem size_left_of_spares {op : Op W V (Except AllocError α)} (ht : t.Sound)
    (hspares : ∀ m : Table V, m.chains.WellFormed → m.fence = none →
      Leaves m (rehash env (t.size + 1) ⟨t, w⟩) → Spares m (op ⟨t, w⟩))
    (hok : ∀ a s, op ⟨t, w⟩ = .ok (.ok a) s → s.table.size ≤ t.size + 1) :
    (left (op ⟨t, w⟩)).size ≤ t.size + 1 := by
  obtain ⟨m, hwide, -, hleft⟩ := exists_spares ht.wellFormed ht.fence hspares
  have hsize : m.size ≤ t.size + 1 := by
    rw [hwide.size]
    exact Nat.le_succ _
  rcases hrun : op ⟨t, w⟩ with ⟨e | a, s⟩ | ⟨p, s⟩
  · rw [hrun] at hleft
    rwa [left, show s.table = m from hleft]
  · exact hok a s hrun
  · rw [hrun] at hleft
    rwa [left, show s.table = m from hleft]

theorem size_left_insertNew (ht : t.Sound) (env : Environment V K W) (v : V) (w : W) :
    (left (insertNew env v ⟨t, w⟩)).size ≤ t.size + 1 := by
  refine size_left_of_spares ht (fun m hwf hfence hm => spares_insertNew hwf hfence hm v) ?_
  intro r s hrun
  cases placedAt_of_insertNew ht hrun with
  | linked readied room gains size => exact Nat.le_of_eq size
  | resident readied room there read size =>
      rw [size]
      exact Nat.le_succ _

theorem size_left_insertAny (ht : t.Sound) (env : Environment V K W) (v : V) (w : W) :
    (left (insertAny env v ⟨t, w⟩)).size ≤ t.size + 1 := by
  refine size_left_of_spares ht (fun m hwf hfence hm => spares_insertAny hwf hfence hm v) ?_
  intro c s hrun
  cases addedAt_of_insertAny ht hrun with
  | intro readied room behind gains size => exact Nat.le_of_eq size

/-- There is room for as many elements as were reserved. -/
theorem hasRoom_of_reserve (ht : t.Sound) {n : Nat} {s : Running V W}
    (hrun : reserve env n ⟨t, w⟩ = .ok (.ok ()) s) : s.table.HasRoom (s.table.size + n) := by
  by_cases hlimit : countLimit ≤ t.size + n
  · rw [reserve_of_overflow hlimit] at hrun
    cases hrun
  · have hspec := rehash_spec ht.wellFormed ht.fence env (t.size + n) w
    rw [← reserve_of_fits hlimit, hrun] at hspec
    rw [show s.table = _ from hspec, (widened_roomFor ht.wellFormed _).size]
    exact hasRoom_roomFor ht.wellFormed _

end Table

namespace Command

variable {env : Environment V K W} {cmd : Command V K} {t : Table V}

open Table

theorem size_left_of_not_insertion (ht : t.Sound) (hold : cmd.isInsertion = false)
    (env : Environment V K W) (w : W) : (left (cmd.run env ⟨t, w⟩)).size ≤ t.size := by
  have hkeeps : (Contract.wild (fun _ => True) (·.size ≤ t.size) : Contract V K W).Keeps none 0 t
      (cmd.run env) IssuedBy := by
    refine keeps_run_of cmd (Contract.obeyed_anything env _)
      (fun _ => .of_tables (fun _ _ _ => Iff.rfl) ?_) (fun h => ?_) (fun _ => ?_) (fun _ => ?_)
      fun _ _ => trivial
    · intro u n u' _ _ _ hgrown h
      exact Nat.le_trans (Nat.le_of_eq hgrown.size) h
    · rw [hold] at h
      cases h
    · intro u k e w hwf he h
      exact Nat.le_trans (Nat.le_of_succ_le (Nat.le_of_eq (size_without hwf he))) h
    · intro u k f n w _ _ h
      exact Nat.le_trans (Nat.le_of_eq (size_edited u k f)) h
  exact hkeeps.left ht (Nat.le_refl _) (fun _ h => h) w

/-- A command leaves at most one element more than there were, and only if it is an insertion. -/
theorem size_left (ht : t.Sound) (env : Environment V K W) (cmd : Command V K) (w : W) :
    (left (cmd.run env ⟨t, w⟩)).size ≤ t.size + cmd.isInsertion.toNat := by
  cases cmd with
  | insertNew v =>
      rw [left_run_insertNew]
      exact size_left_insertNew ht env v w
  | insertNew! v =>
      rw [left_run_insertNew!]
      exact size_left_insertNew ht env v w
  | insertAny v =>
      rw [left_run_insertAny]
      exact size_left_insertAny ht env v w
  | insertAny! v =>
      rw [left_run_insertAny!]
      exact size_left_insertAny ht env v w
  | _ => exact size_left_of_not_insertion ht rfl env w

theorem asked_eq (hcmd : cmd.isRequest = false)
    (hroom : cmd.isInsertion = true → t.HasRoom (t.size + 1)) (env : Environment V K W) (w : W) :
    cmd.asked env t w = t := by
  have hstays : t.HasRoom (t.size + 1) → left (Table.rehash env (t.size + 1) ⟨t, w⟩) = t := by
    intro h
    obtain ⟨w', hrun⟩ := rehash_of_fits env h.fits w
    rw [hrun]
    rfl
  cases cmd with
  | insertNew | insertNew! | insertAny | insertAny! => exact hstays (hroom rfl)
  | rehash | rehash! | reserve | reserve! => cases hcmd
  | _ => rfl

/-- A command that makes no request of its own leaves buckets and growths alone if there is room,
and uses up the room of one element at most. -/
theorem hasRoom_run (ht : t.Sound) (hcmd : cmd.isRequest = false) {n : Nat}
    (hroom : t.HasRoom (t.size + (cmd.isInsertion.toNat + n))) (env : Environment V K W) (w : W) :
    t.SameGeometry (left (cmd.run env ⟨t, w⟩))
      ∧ (left (cmd.run env ⟨t, w⟩)).HasRoom ((left (cmd.run env ⟨t, w⟩)).size + n) := by
  have hone : cmd.isInsertion = true → t.HasRoom (t.size + 1) := by
    intro h
    rw [h] at hroom
    exact hroom.mono (Nat.add_le_add_left (Nat.le_add_right 1 n) _)
  have hsame := sameGeometry_run ht env cmd w
  rw [asked_eq hcmd hone] at hsame
  refine ⟨hsame, ?_⟩
  rw [HasRoom, hsame.1]
  refine hroom.mono ?_
  rw [← Nat.add_assoc]
  exact Nat.add_le_add_right (size_left ht env cmd w) n

end Command

/-! ## Runs -/

/-- The insertions that an action attempts on the table in place `i`. -/
def Action.attempts (i : Nat) : Action V K → Nat
  | .on j cmd => if j = i then cmd.isInsertion.toNat else 0
  | _ => 0

/-- The action neither makes a request for the table in place `i` nor releases it. -/
def Action.spares (i : Nat) : Action V K → Bool
  | .on j cmd => !(j == i && cmd.isRequest)
  | .drop j => j != i
  | _ => true

namespace Store

variable {env : Environment V K W} {s : Store V W} {i n : Nat} {t : Table V}
  {acts later xs ys zs : List (Action V K)}

/-- The insertions that a run attempts on the table in place `i`. -/
def attempts (i : Nat) (acts : List (Action V K)) : Nat := (acts.map (·.attempts i)).sum

/-- A run that a reservation of `n` for the table in place `i` is meant for: at most so many
insertions, whatever becomes of them, no other request, and the table is not released. What else is
done to it, and what is done to other tables, is free. -/
structure Within (i n : Nat) (acts : List (Action V K)) : Prop where
  spares : ∀ a ∈ acts, a.spares i = true
  few : attempts i acts ≤ n

theorem attempts_append (i : Nat) (xs ys : List (Action V K)) :
    attempts i (xs ++ ys) = attempts i xs + attempts i ys := by
  rw [attempts, List.map_append, List.sum_append]
  rfl

theorem attempts_cons (i : Nat) (a : Action V K) (acts : List (Action V K)) :
    attempts i (a :: acts) = a.attempts i + attempts i acts := rfl

/-- The step lemma: no action uses up more room than it attempts insertions. -/
theorem hasRoom_step (hs : s.Sound) (ht : s.table? i = some t) {a : Action V K}
    (ha : a.spares i = true) (hroom : t.HasRoom (t.size + (a.attempts i + n))) :
    ∃ t', (s.step env a).table? i = some t' ∧ t.SameGeometry t' ∧ t'.HasRoom (t'.size + n) := by
  have hstays : (∀ cmd, a ≠ .on i cmd) → a ≠ .drop i →
      ∃ t', (s.step env a).table? i = some t' ∧ t.SameGeometry t' ∧ t'.HasRoom (t'.size + n) :=
    fun helsewhere hdrop => ⟨t, table?_step_ne hs ht helsewhere hdrop, ⟨rfl, rfl⟩,
      hroom.mono (Nat.add_le_add_left (Nat.le_add_left n _) _)⟩
  cases a with
  | create | copy => exact hstays (fun _ h => nomatch h) fun h => nomatch h
  | drop j =>
      refine hstays (fun _ h => nomatch h) fun h => ?_
      obtain rfl := Action.drop.inj h
      simp [Action.spares] at ha
  | on j cmd =>
      by_cases hj : j = i
      · subst hj
        have hcmd : cmd.isRequest = false := by simpa [Action.spares] using ha
        rw [Action.attempts, if_pos rfl] at hroom
        exact ⟨_, table?_step_on ht cmd,
          Command.hasRoom_run (hs.table j t ht).1 hcmd hroom env s.world⟩
      · exact hstays (fun _ h => hj (Action.on.inj h).1) fun h => nomatch h

/-- The run lemma: what room was not used up is left. -/
theorem hasRoom_after (hs : s.Sound) (ht : s.table? i = some t)
    (hspares : ∀ a ∈ acts, a.spares i = true)
    (hroom : t.HasRoom (t.size + (attempts i acts + n))) :
    ∃ t', (s.after env acts).table? i = some t' ∧ t.SameGeometry t'
      ∧ t'.HasRoom (t'.size + n) := by
  induction acts generalizing s t with
  | nil =>
      rw [attempts, List.map_nil, List.sum_nil, Nat.zero_add] at hroom
      exact ⟨t, ht, ⟨rfl, rfl⟩, hroom⟩
  | cons a acts ih =>
      obtain ⟨ha, hacts⟩ := List.forall_mem_cons.1 hspares
      rw [attempts_cons, Nat.add_assoc] at hroom
      obtain ⟨t₁, ht₁, hsame₁, hroom₁⟩ := hasRoom_step hs ht ha hroom
      obtain ⟨t', ht', hsame', hroom'⟩ := ih (hs.step env a) ht₁ hacts hroom₁
      exact ⟨t', ht', ⟨hsame'.1.trans hsame₁.1, hsame'.2.trans hsame₁.2⟩, hroom'⟩

/-- What a reservation for the table in place `i` is worth in all that is `later`. -/
structure Reserved (env : Environment V K W) (s : Store V W) (i : Nat)
    (later : List (Action V K)) : Prop where
  /-- At no time has the table grown. -/
  steady : ∃ t, s.table? i = some t ∧ ∀ xs ys, later = xs ++ ys →
    ∃ t', (s.after env xs).table? i = some t' ∧ t.SameGeometry t'
  /-- No command on it would have gone differently if requests for buckets were answered
  differently. -/
  unasked : ∀ xs cmd ys, later = xs ++ .on i cmd :: ys → ∀ answer,
    perform (env.answeringBuckets answer) (.on i cmd) (s.after env xs)
      = perform env (.on i cmd) (s.after env xs)
  /-- If requests are audited, those of the commands on it are for nodes. -/
  audited : ∀ requests, env.Audits requests → ∀ xs cmd ys, later = xs ++ .on i cmd :: ys →
    AsksNodes (requests (s.after env xs).world) (requests (s.after env (xs ++ [.on i cmd])).world)
  /-- A cursor that it issues is accepted at any time after that exactly if the element that it
  names has not been removed. -/
  accepted : ∀ xs ys zs, later = xs ++ ys ++ zs → ∀ cmd a, s.Answers env xs i cmd a →
    ∀ c ∈ a.issued, ∀ k, c.node = some k → ∃ t', (s.after env (xs ++ ys)).table? i = some t'
      ∧ ((∃ m, t'.cell c = .ok (k, m)) ↔ ¬(s.after env xs).Removed env i k ys)

/-- The room that a reservation has left at some time before the run is over. -/
theorem Within.hasRoom (h : Within i n (xs ++ ys)) (hs : s.Sound) (ht : s.table? i = some t)
    (hroom : t.HasRoom (t.size + n)) (env : Environment V K W) :
    ∃ t', (s.after env xs).table? i = some t' ∧ t.SameGeometry t'
      ∧ t'.HasRoom (t'.size + attempts i ys) := by
  refine hasRoom_after hs ht (fun a ha => h.spares a (List.mem_append_left _ ha)) ?_
  rw [← attempts_append]
  exact hroom.mono (Nat.add_le_add_left h.few _)

/-- The next command on the table has the room it needs. -/
theorem Within.hasRoom_next {cmd : Command V K} (h : Within i n (xs ++ .on i cmd :: ys))
    (hs : s.Sound) (ht : s.table? i = some t) (hroom : t.HasRoom (t.size + n))
    (env : Environment V K W) :
    cmd.isRequest = false ∧ ∃ t', (s.after env xs).table? i = some t'
      ∧ (cmd.isInsertion = true → t'.HasRoom (t'.size + 1)) := by
  have hcmd : cmd.isRequest = false := by
    simpa [Action.spares] using h.spares (.on i cmd) (by simp)
  obtain ⟨t', ht', -, hroom'⟩ := h.hasRoom hs ht hroom env
  rw [attempts_cons, Action.attempts, if_pos rfl] at hroom'
  refine ⟨hcmd, t', ht', fun hins => hroom'.mono (Nat.add_le_add_left ?_ _)⟩
  rw [hins]
  exact Nat.le_add_right 1 _

theorem accepted_iff (hs : s.Sound) (ht : s.table? i = some t) {c : Cursor} (hc : t.Issues c)
    {k : ArenaKey} (hk : c.node = some k) {t' : Table V}
    (ht' : (s.after env acts).table? i = some t') (hsame : t'.growths = t.growths) :
    (∃ m, t'.cell c = .ok (k, m)) ↔ ¬s.Removed env i k acts := by
  obtain ⟨l, rfl, hlive⟩ := hc
  obtain ⟨n, hn⟩ := hlive k hk
  obtain ⟨hlater, hhistory⟩ := history_after env hs ht ht'
  have hvalue : t.value? k = some n.value := by
    rw [Table.value?_eq, hn]
    rfl
  rcases hhistory k _ hvalue with ⟨hheld, hkept⟩ | ⟨hspent, hremoved⟩
  · rw [Table.value?_eq] at hheld
    obtain ⟨m, hm, -⟩ := Option.map_eq_some_iff.1 hheld
    exact iff_of_true ⟨m, Table.cell_eq_ok_iff.2 ⟨hlater.id.symm, hsame.symm, hk, hm⟩⟩ hkept
  · refine iff_of_false ?_ (not_not.2 hremoved)
    rintro ⟨m, hm⟩
    obtain ⟨-, -, -, hget⟩ := Table.cell_eq_ok_iff.1 hm
    rw [hspent.get?] at hget
    cases hget

theorem reserved (hs : s.Sound) (ht : s.table? i = some t) (hroom : t.HasRoom (t.size + n))
    (hlater : Within i n later) (env : Environment V K W) : s.Reserved env i later := by
  refine ⟨⟨t, ht, fun xs ys hsplit => ?_⟩, fun xs cmd ys hsplit answer => ?_,
    fun requests henv xs cmd ys hsplit => ?_, fun xs ys zs hsplit cmd a ha c hc k hk => ?_⟩
  · subst hsplit
    obtain ⟨t', ht', hsame, -⟩ := hlater.hasRoom hs ht hroom env
    exact ⟨t', ht', hsame⟩
  · subst hsplit
    obtain ⟨hcmd, t', ht', hnext⟩ := hlater.hasRoom_next hs ht hroom env
    rw [perform_on ht', perform_on ht', Command.run_answeringBuckets hcmd hnext]
  · subst hsplit
    obtain ⟨hcmd, t', ht', hnext⟩ := hlater.hasRoom_next hs ht hroom env
    have hasks := Command.asksNodes_run henv ((hs.after env xs).table i t' ht').1 hcmd hnext
      (s.after env xs).world
    rw [after_append, after_cons, after_nil, step, perform_on ht']
    cases hrun : cmd.run env ⟨t', (s.after env xs).world⟩ with
    | ok a r =>
        rw [hrun] at hasks
        exact hasks
    | error p r =>
        rw [hrun] at hasks
        exact hasks
  · subst hsplit
    obtain ⟨t₁, ht₁, hissued, -⟩ := ha.issues hs
    obtain ⟨t₂, ht₂, hsame₂, -⟩ := hlater.hasRoom hs ht hroom env
    rw [List.append_assoc] at hlater
    obtain ⟨t₁', ht₁', hsame₁, -⟩ := hlater.hasRoom hs ht hroom env
    obtain rfl := Option.some.inj (ht₁.symm.trans ht₁')
    refine ⟨t₂, ht₂, ?_⟩
    rw [after_append] at ht₂
    exact accepted_iff (hs.after env xs) ht₁ (hissued c hc) hk ht₂
      (hsame₂.2.trans hsame₁.2.symm)

/-- A granted reservation of `n`, made in either way, leaves room for `n` elements more. -/
theorem hasRoom_of_answers (hs : s.Sound) {cmd : Command V K}
    (hcmd : cmd = .reserve n ∨ cmd = .reserve! n)
    (ha : s.Answers env acts i cmd (.room (.ok ()))) :
    ∃ t, (s.after env acts).table? i = some t ∧ t.HasRoom (t.size + n) := by
  obtain ⟨xs, rfl, hanswer⟩ := ha
  have hsound := hs.after env xs
  rw [after_append, after_cons, after_nil, step]
  cases ht : (s.after env xs).table? i with
  | none =>
      rw [perform_on_none ht] at hanswer
      cases hanswer
  | some t =>
      rw [perform_on ht] at hanswer ⊢
      cases hrun : cmd.run env ⟨t, (s.after env xs).world⟩ with
      | error p r =>
          rw [hrun] at hanswer
          cases hanswer
      | ok a r =>
          rw [hrun] at hanswer
          cases hanswer
          have hreserve : Table.reserve env n ⟨t, (s.after env xs).world⟩ = .ok (.ok ()) r := by
            rcases hcmd with rfl | rfl
            · obtain ⟨b, r', hreserve, hreturn⟩ := Op.of_run_bind_ok hrun
              cases hreturn
              exact hreserve
            · obtain ⟨b, r', hreserve, hreturn⟩ := Op.of_run_bind_ok hrun
              cases hreturn
              exact Op.of_run_infallible_ok hreserve
          exact ⟨r.table, table?_put_self (lt_of_table? ht) ..,
            Table.hasRoom_of_reserve (hsound.table i t ht).1 hreserve⟩

/-- Whatever foreign code answers and the supply grants: once a reservation of `n` was granted, the
table does not grow, requests no buckets and accepts the cursors to all that it still holds, as long
as no more than `n` insertions are attempted on it and nothing else asks room of it. -/
theorem reserved_after {env : Environment V K W} {w : W} {acts : List (Action V K)} {i n : Nat}
    {cmd : Command V K} (hcmd : cmd = .reserve n ∨ cmd = .reserve! n)
    (ha : (ofWorld w : Store V W).Answers env acts i cmd (.room (.ok ())))
    {later : List (Action V K)} (hlater : Within i n later) :
    ((ofWorld w).after env acts).Reserved env i later := by
  have hempty := sound_ofWorld (V := V) w
  obtain ⟨t, ht, hroom⟩ := hasRoom_of_answers hempty hcmd ha
  exact reserved (hempty.after env acts) ht hroom hlater env

/-- One element is there and 52 more are reserved, for which 53 buckets do. As many insertions fill
them and request a node each. The next one grows the table. -/
theorem reserved_after_full :
    ∃ (env : Environment Nat Nat (Unit × List (Block × Nat)))
      (s : Store Nat (Unit × List (Block × Nat))) (later : List (Action Nat Nat)),
      env = ((Policies.mk id Nat.toUInt64 (· == ·)).environment (.unlimited 4096 8 8)).audited
      ∧ env.Audits (·.2)
      ∧ s = (ofWorld ((), [])).after env [.create 0, .on 0 (.insertAny 7), .on 0 (.reserve 52)]
      ∧ later = (List.range 52).map (fun k => .on 0 (.insertAny k)) ∧ Within 0 52 later
      ∧ s.Reserved env 0 later
      ∧ s.world.2 = [(.bucket, 53), (.node, 1)]
      ∧ (s.after env later).world.2 = s.world.2 ++ List.replicate 52 (.node, 1)
      ∧ ((s.after env later).table? 0).map (fun t => (t.size, t.growths)) = some (53, 0)
      ∧ (((s.after env later).step env (.on 0 (.insertAny 0))).table? 0).map
        (fun t => (t.size, t.growths)) = some (54, 1) := by
  generalize henv : ((Policies.mk id Nat.toUInt64 (· == ·) : Policies Nat Nat).environment
    (.unlimited 4096 8 8 : Supply Unit)).audited = env
  generalize hlater : ((List.range 52).map fun k => .on 0 (.insertAny k)
    : List (Action Nat Nat)) = later
  have hanswers : (ofWorld ((), [])).Answers env
      [.create 0, .on 0 (.insertAny 7), .on 0 (.reserve 52)] 0 (.reserve 52) (.room (.ok ())) := by
    refine ⟨[.create 0, .on 0 (.insertAny 7)], rfl, ?_⟩
    subst henv
    decide +kernel
  have hwithin : Within 0 52 later := by
    subst hlater
    exact ⟨by decide +kernel, by decide +kernel⟩
  have hreserved := reserved_after (Or.inl rfl) hanswers hwithin
  generalize hs : (ofWorld ((), [])).after env
    [.create 0, .on 0 (.insertAny 7), .on 0 (.reserve 52)] = s at hreserved
  refine ⟨env, s, later, rfl, henv ▸ Environment.audits_audited _, hs.symm, rfl, hwithin,
    hreserved, ?_⟩
  subst hs henv hlater
  decide +kernel

end Store

end SeparateChaining
