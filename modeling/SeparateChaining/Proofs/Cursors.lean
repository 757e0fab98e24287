import SeparateChaining.Environment.Policies
import SeparateChaining.Proofs.Geometry

/-!
# Cursors over time

Cursors are kept while their tables change. A cursor carries the count
of growths of the table that issued it and the key of an element; the
history of that table says what both are worth later. The count is the
same exactly as long as the table has not grown (`growths_eq_iff`), and
the key names the element exactly as long as it has not been removed,
since a spent key names nothing again. So a cursor is accepted exactly
when both hold, and then names the element for which it was issued
(`Store.cursors_after`). An element is removed by a command that set out
to take it out, and no command takes out anything else
(`Command.TakesOut`).

A growth that is cut short does not count. The nodes have moved, into
more buckets, but the supply panics when it is given the old ones back,
and the cursors of the table are accepted as before. A supply that takes
back what it is given never does that, and then a table has grown
exactly when it has more buckets.
-/

namespace SeparateChaining

variable {V K W : Type}

/-! ## One table -/

namespace Table

variable {t t' : Table V} {c : Cursor} {k : ArenaKey} {n : Node V}

/-- What is asked of a cursor before it is accepted. -/
theorem cell_eq_ok_iff : t.cell c = .ok (k, n) ↔
    c.table = t.id ∧ c.growths = t.growths ∧ c.node = some k
      ∧ t.chains.nodes.get? k = some n := by
  constructor
  · intro hcell
    obtain ⟨hnode, hn⟩ := element?_of_cell hcell
    unfold cell at hcell
    split at hcell
    · cases hcell
    · split at hcell
      · cases hcell
      · rename_i htable hgrowths
        exact ⟨not_not.1 htable, not_not.1 hgrowths, hnode, hn⟩
  · rintro ⟨htable, hgrowths, hnode, hn⟩
    rw [cell, if_neg (not_not.2 htable), if_neg (not_not.2 hgrowths), hnode]
    simp only [hn]

end Table

/-! ## One command -/

namespace Command

variable {env : Environment V K W} {t : Table V} {c : Cursor} {k : ArenaKey} {n : Node V}

/-- The one element that `k` names is taken out and the answer is `a`, unless the environment
panics after it is taken out. -/
def TakenOut (env : Environment V K W) (t : Table V) (k : ArenaKey) (a : Answer V) :
    EStateM.Result Panic (Running V W) (Answer V) → Prop
  | .ok b s => b = a ∧ ∀ j, s.table.value? j = if j = k then none else t.value? j
  | .error p s => env.Raises p ∧ ∀ j, s.table.value? j = if j = k then none else t.value? j

/-- The command does at the element that `k` names, whose value is `v`, what it is asked to do, and
to no other element anything. -/
def Served (env : Environment V K W) (t : Table V) (k : ArenaKey) (v : V) (w : W)
    (cmd : Command V K) : Prop :=
  match cmd with
  | get _ => cmd.run env ⟨t, w⟩ = .ok (.value v) ⟨t, w⟩
  | next _ => cmd.run env ⟨t, w⟩ = .ok (.cursor (t.cursor (t.chains.successor k))) ⟨t, w⟩
  | modify _ f => ∃ t', cmd.run env ⟨t, w⟩ = .ok .done ⟨t', w⟩
      ∧ ∀ j, t'.value? j = if j = k then some (f v) else t.value? j
  | erase _ => TakenOut env t k (.cursor (t.cursor (t.chains.successor k))) (cmd.run env ⟨t, w⟩)
  | remove _ => TakenOut env t k (.value v) (cmd.run env ⟨t, w⟩)
  | _ => True

/-- What is left to do after an element was taken out answers or panics, and leaves the table. -/
theorem takenOut_of_keeps (ht : t.Sound) {op : Op W V (Answer V)} {a : Answer V}
    (hkeeps : (Contract.wild env.Raises (· = t.without k) : Contract V K W).Keeps none
      ((0 : Debt).add .node 1) (t.without k) op (Contract.still (t.without k) (· = a))) (w : W) :
    TakenOut env t k a (op ⟨t.without k, w⟩) := by
  have hwf := Table.wellFormed_without ht.wellFormed k
  have hfence : (t.without k).fence = none := ht.fence
  cases hrun : op ⟨t.without k, w⟩ with
  | ok b s =>
      obtain ⟨d', t', htable, -, -, -, rfl, rfl⟩ := hkeeps.of_run_ok hfence hwf rfl hrun
      rw [Table.fencedBy_eq hfence] at htable
      refine ⟨rfl, fun j => ?_⟩
      rw [htable]
      exact Table.value?_without ht.wellFormed k j
  | error p s =>
      obtain ⟨t', htable, rfl, -, hraises⟩ := hkeeps.of_run_error hfence hwf rfl hrun
      rw [Table.fencedBy_eq hfence] at htable
      refine ⟨hraises, fun j => ?_⟩
      rw [htable]
      exact Table.value?_without ht.wellFormed k j

theorem served (ht : t.Sound) (hcell : t.cell c = .ok (k, n)) {cmd : Command V K}
    (htarget : cmd.target? = some c) (w : W) : cmd.Served env t k n.value w := by
  have hobeyed := Contract.obeyed_wild_of env (fun _ hp => hp) (· = t.without k)
  have hfinish : ∀ op, (Contract.wild env.Raises (· = t.without k)).Keeps none
      ((0 : Debt).add .node 1) (t.without k)
      (Table.finishRemoval env op (t.cursor (t.chains.successor k)) n.value)
      (Contract.still (t.without k) (· = (t.cursor (t.chains.successor k), n.value))) :=
    fun op => Table.keeps_finishRemoval hobeyed op _ _
  have hremoveAt : ∀ op, Table.removeAt env op c ⟨t, w⟩
      = Table.finishRemoval env op (t.cursor (t.chains.successor k)) n.value
          ⟨t.without k, w⟩ := by
    intro op
    have heq : Table.removeAt env op c ⟨t.fencedBy none, w⟩
        = Table.finishRemoval env op _ _ ⟨(t.without k).fencedBy none, w⟩ :=
      Table.removeAt_eq ht.wellFormed hcell w
    have hfence : (t.without k).fence = none := ht.fence
    rwa [Table.fencedBy_eq ht.fence, Table.fencedBy_eq hfence] at heq
  cases cmd with
  | erase c' =>
      obtain rfl := Option.some.inj htarget
      rw [Served, show (erase c').run env ⟨t, w⟩ = _ from
        Op.run_bind_congr (Op.run_bind_congr (hremoveAt .erase))]
      refine takenOut_of_keeps ht ?_ w
      rw [bind_assoc]
      refine (hfinish .erase).bind ?_
      intro r d t' hr
      obtain ⟨rfl, rfl, rfl⟩ := hr
      show Contract.Keeps _ _ _ _ ((env.disposeOp n.value >>= _) >>= _) _
      rw [bind_assoc]
      refine (Contract.Keeps.disposeOp hobeyed n.value).bindStill ?_
      intro _ _
      exact Contract.Keeps.pure ⟨rfl, rfl, rfl⟩
  | remove c' =>
      obtain rfl := Option.some.inj htarget
      rw [Served, show (remove c').run env ⟨t, w⟩ = _ from
        Op.run_bind_congr (Op.run_bind_congr (hremoveAt .remove))]
      refine takenOut_of_keeps ht ?_ w
      rw [bind_assoc]
      refine (hfinish .remove).bind ?_
      intro r d t' hr
      obtain ⟨rfl, rfl, rfl⟩ := hr
      exact Contract.Keeps.pure ⟨rfl, rfl, rfl⟩
  | next c' =>
      obtain rfl := Option.some.inj htarget
      have hnext : t.next c' = .ok (t.cursor (t.chains.successor k)) := by
        rw [Table.next, hcell]
        rfl
      exact Op.run_query_bind (s := ⟨t, w⟩) hnext _
  | get c' =>
      obtain rfl := Option.some.inj htarget
      have hget : t.get c' = .ok n.value := by
        rw [Table.get, hcell]
        rfl
      exact Op.run_query_bind (s := ⟨t, w⟩) hget _
  | modify c' f =>
      obtain rfl := Option.some.inj htarget
      refine ⟨_, run_modify hcell f w, fun j => ?_⟩
      have hk : t.value? k = some n.value := by
        rw [Table.value?_eq, (Table.element?_of_cell hcell).2]
        rfl
      rw [Table.value?_edited]
      by_cases hj : j = k
      · subst hj
        rw [hk, if_pos rfl]
        exact congrArg some (if_pos rfl)
      · rw [if_neg hj]
        simp only [if_neg hj, Option.map_id']
  | _ => cases htarget

/-! ## What an insertion answers -/

/-- The cursor to an element that a command has inserted, and its value. -/
def inserted : Command V K → Answer V → Option (Cursor × V)
  | insertNew v, .placement (.ok (.linked c)) => some (c, v)
  | insertNew! v, .placement (.ok (.linked c)) => some (c, v)
  | insertAny v, .position (.ok c) => some (c, v)
  | insertAny! v, .position (.ok c) => some (c, v)
  | _, _ => none

/-- The cursor names an element of this value. -/
def Shows (t : Table V) (c : Cursor) (v : V) : Prop := ∃ k, c.node = some k ∧ t.value? k = some v

theorem shows_linked (t : Table V) (p : Chains.Place) (v : V) (hash : UInt64) :
    Shows (t.linked p v hash) (t.cursor (some (t.linkedKey p v hash))) v := by
  refine ⟨_, rfl, ?_⟩
  rw [Table.value?, Table.linked, Table.linkedKey, Chains.element?_insertAt, if_pos rfl]
  rfl

theorem shows_placed {C : Contract V K W} {value v : V} {p : Placement V} {t' : Table V}
    (h : C.Placed t value p t')
    (hins : (insertNew value : Command V K).inserted (.placement (.ok p)) = some (c, v)) :
    Shows t' c v := by
  cases h with
  | linked room key hashed new =>
      cases hins
      exact shows_linked ..
  | resident room key hashed found => cases hins

theorem shows_added {C : Contract V K W} {value : V} {t' : Table V} (h : C.Added t value c t') :
    Shows t' c value := by
  cases h with
  | alone room key hashed new => exact shows_linked ..
  | beside room key hashed found => exact shows_linked ..

/-- The cursor to an element that was inserted names it. -/
theorem keeps_inserted {C : Contract V K W} (cmd : Command V K) (h : C.Suits env cmd) :
    C.Keeps none 0 t (cmd.run env)
      fun a _ t' => ∀ c v, cmd.inserted a = some (c, v) → Shows t' c v := by
  have hrefusal : ∀ e, C.refuses e → C.panics (.allocationFailed e) := fun _ _ => h.misuse _ rfl
  cases cmd with
  | insertNew value =>
      refine (Table.keeps_insertNew h.obeyed (h.grows.to t _) h.links value).bind fun r d t' hr =>
        Contract.Keeps.pure ?_
      intro c v hins
      cases r with
      | error e => cases hins
      | ok p => exact shows_placed hr.2 hins
  | insertNew! value =>
      refine ((Table.keeps_insertNew h.obeyed (h.grows.to t _) h.links value).infallible
        fun e _ _ hr => ⟨hr.1, hrefusal e hr.2.2⟩).bind fun p d t' hr =>
        Contract.Keeps.pure ?_
      intro c v hins
      refine shows_placed (K := K) hr.2 ?_
      cases p with
      | linked c' => exact hins
      | resident c' r => cases hins
  | insertAny value =>
      refine (Table.keeps_insertAny h.obeyed (h.grows.to t _) h.links value).bind fun r d t' hr =>
        Contract.Keeps.pure ?_
      intro c v hins
      cases r with
      | error e => cases hins
      | ok c' =>
          cases hins
          exact shows_added hr.2
  | insertAny! value =>
      refine ((Table.keeps_insertAny h.obeyed (h.grows.to t _) h.links value).infallible
        fun e _ _ hr => ⟨hr.1, hrefusal e hr.2.2⟩).bind fun c' d t' hr =>
        Contract.Keeps.pure ?_
      intro c v hins
      cases hins
      exact shows_added hr.2
  | _ => exact (keeps_run _ h).mono fun a d t' _ c v hins => by cases a <;> cases hins

end Command

/-! ## Over runs of a store -/

namespace Store

variable {env : Environment V K W} {s : Store V W} {acts : List (Action V K)} {i : Nat}
  {cmd : Command V K} {a : Answer V} {t t' : Table V} {c c' : Cursor} {k : ArenaKey} {v : V}

/-- The answer of a command, if it was carried out and did not panic. -/
def answer? : EStateM.Result Panic (Store V W) (Reply V) → Option (Answer V)
  | .ok (.answered a) _ => a
  | _ => none

/-- The last action of the run is `cmd` on the table in place `i`, and it answers `a`. -/
def Answers (env : Environment V K W) (s : Store V W) (acts : List (Action V K)) (i : Nat)
    (cmd : Command V K) (a : Answer V) : Prop :=
  ∃ xs, acts = xs ++ [.on i cmd] ∧ answer? (perform env (.on i cmd) (s.after env xs)) = some a

/-- The cursors in an answer are issued by the table that the run leaves. -/
theorem Answers.issues (ha : s.Answers env acts i cmd a) (h : s.Sound) :
    ∃ t, (s.after env acts).table? i = some t ∧ (∀ c ∈ a.issued, t.Issues c)
      ∧ ∀ c v, cmd.inserted a = some (c, v) → Command.Shows t c v := by
  obtain ⟨xs, rfl, hanswer⟩ := ha
  have hsound := h.after env xs
  rw [after_append, after_cons, after_nil, step]
  cases ht : (s.after env xs).table? i with
  | none =>
      rw [perform_on_none ht] at hanswer
      cases hanswer
  | some t =>
      have htable := (hsound.table i t ht).1
      have hspec := Command.run_spec htable env cmd (s.after env xs).world
      rw [perform_on ht] at hanswer ⊢
      cases hrun : cmd.run env ⟨t, (s.after env xs).world⟩ with
      | ok b r =>
          rw [hrun] at hanswer hspec
          obtain ⟨d, t', htable', hchanges, -, hshows⟩ :=
            (Command.keeps_inserted cmd (Command.suits_wild env cmd t)).of_run_ok
              htable.fence htable.wellFormed .refl hrun
          have hfence : t'.fence = none := (Table.Changes.same hchanges).2.trans htable.fence
          rw [Table.fencedBy_eq hfence] at htable'
          cases hanswer
          refine ⟨r.table, table?_put_self (lt_of_table? ht) _ _, hspec.2.2, ?_⟩
          rw [htable']
          exact hshows
      | error p r =>
          rw [hrun] at hanswer
          cases hanswer

/-- The action grows the table in place `i`: it has more buckets then, and the growth is not cut
short. -/
def Grows (env : Environment V K W) (s : Store V W) (i : Nat) (a : Action V K) : Prop :=
  ¬s.CutsShort env i a ∧ ∃ t t', s.table? i = some t ∧ (s.step env a).table? i = some t'
    ∧ t.bucketCount < t'.bucketCount

/-- Some action of the run grows the table in place `i`. -/
def Grew (env : Environment V K W) (s : Store V W) (i : Nat) : List (Action V K) → Prop :=
  s.Happens env fun s a => s.Grows env i a

/-- Over the run the table in place `i` has not grown, and the element that `k` names has not been
removed from it. -/
def Valid (env : Environment V K W) (s : Store V W) (i : Nat) (k : ArenaKey)
    (acts : List (Action V K)) : Prop :=
  ¬s.Grew env i acts ∧ ¬s.Removed env i k acts

/-- An action that grows a table counts one growth, and any other none. -/
theorem growths_step (h : s.Sound) {x : Action V K} (ht : s.table? i = some t)
    (ht' : (s.step env x).table? i = some t') :
    (s.Grows env i x → t'.growths = t.growths + 1)
      ∧ (¬s.Grows env i x → t'.growths = t.growths) := by
  have hcounts := counts_step h ht ht'
  refine ⟨fun hgrows => ?_, fun hgrows => ?_⟩
  · obtain ⟨hwhole, t₀, t₁, ht₀, ht₁, hmore⟩ := hgrows
    obtain rfl := Option.some.inj (ht.symm.trans ht₀)
    obtain rfl := Option.some.inj (ht'.symm.trans ht₁)
    rw [hcounts.whole hwhole, if_pos hmore]
  · by_cases hcut : s.CutsShort env i x
    · exact (hcounts.short hcut).2
    · rw [hcounts.whole hcut, if_neg fun hmore => hgrows ⟨hcut, t, t', ht, ht', hmore⟩]
      rfl

/-- The count of growths is the same exactly as long as the table has not grown. -/
theorem growths_eq_iff (h : s.Sound) (ht : s.table? i = some t)
    (ht' : (s.after env acts).table? i = some t') :
    t'.growths = t.growths ↔ ¬s.Grew env i acts := by
  induction acts generalizing s t with
  | nil =>
      obtain rfl := Option.some.inj (ht.symm.trans ht')
      exact iff_of_true rfl not_happens_nil
  | cons x acts ih =>
      have hsound := h.step env x
      obtain ⟨n, hsize, -⟩ := size_step h env x
      have hlt := lt_of_table? ht
      obtain ⟨t₁, ht₁⟩ := table?_of_after hsound (by omega) ht'
      obtain ⟨hgrows, hstays⟩ := growths_step h ht ht₁
      have hle := (history_after env hsound ht₁ ht').1.growths_le
      rw [Grew, happens_cons, not_or, ← Grew, ← ih hsound ht₁ ht']
      by_cases hx : s.Grows env i x
      · have hone := hgrows hx
        exact iff_of_false (by omega) fun hboth => hboth.1 hx
      · rw [hstays hx]
        exact (and_iff_right hx).symm

/-- Where no growth is cut short, a table has grown exactly when it has more buckets. -/
theorem grew_iff_of_whole (h : s.Sound) (ht : s.table? i = some t)
    (ht' : (s.after env acts).table? i = some t')
    (hwhole : ¬s.Happens env (fun s a => s.CutsShort env i a) acts) :
    s.Grew env i acts ↔ t.bucketCount < t'.bucketCount := by
  induction acts generalizing s t with
  | nil =>
      obtain rfl := Option.some.inj (ht.symm.trans ht')
      exact iff_of_false not_happens_nil (Nat.lt_irrefl _)
  | cons x acts ih =>
      have hsound := h.step env x
      obtain ⟨n, hsize, -⟩ := size_step h env x
      have hlt := lt_of_table? ht
      obtain ⟨t₁, ht₁⟩ := table?_of_after hsound (by omega) ht'
      rw [happens_cons, not_or] at hwhole
      have hle₁ := (history_step h ht ht₁).1.buckets_le
      have hle' := (history_after env hsound ht₁ ht').1.buckets_le
      have hgrows : s.Grows env i x ↔ t.bucketCount < t₁.bucketCount := by
        refine ⟨?_, fun hmore => ⟨hwhole.1, t, t₁, ht, ht₁, hmore⟩⟩
        rintro ⟨-, t₀, t₂, ht₀, ht₂, hmore⟩
        obtain rfl := Option.some.inj (ht.symm.trans ht₀)
        obtain rfl := Option.some.inj (ht₁.symm.trans ht₂)
        exact hmore
      rw [Grew, happens_cons, ← Grew, hgrows, ih hsound ht₁ ht' hwhole.2]
      omega

/-- Both cursors are the end, or they name one element, which the run has not removed. -/
def SameElement (env : Environment V K W) (s : Store V W) (i : Nat) (acts : List (Action V K))
    (c c' : Cursor) : Prop :=
  (c.node = none ∧ c'.node = none)
    ∨ ∃ k, c.node = some k ∧ c'.node = some k ∧ ¬s.Removed env i k acts

/-- What a cursor that the table in place `i` of the store `s` has issued is worth after a run. -/
structure Tracked (env : Environment V K W) (s : Store V W) (i : Nat) (c : Cursor)
    (acts : List (Action V K)) : Prop where
  /-- When it was issued it named an element, unless it was the end. -/
  named : ∀ k, c.node = some k → ∃ v, s.value? i k = some v
  /-- The table has grown when it has more buckets, but for a growth that is cut short. -/
  grew : ∀ t t', s.table? i = some t → (s.after env acts).table? i = some t' →
    ¬s.Happens env (fun s a => s.CutsShort env i a) acts →
    (s.Grew env i acts ↔ t.bucketCount < t'.bucketCount)
  /-- A supply that takes back what it is given cuts no growth short. -/
  whole : env.TakesBack → ¬s.Happens env (fun s a => s.CutsShort env i a) acts
  /-- What removes elements from the table are the commands that set out to: they take out what they
  come to, and nothing else. -/
  takesOut : ∀ t, (s.after env acts).table? i = some t →
    ∀ (cmd : Command V K) w, cmd.TakesOut env w t
  /-- As long as it is valid, every command at it is served, at the element that it named and with
  the value that the edits in between have made of it. -/
  accepted : ∀ k v t, c.node = some k → s.value? i k = some v →
    (s.after env acts).table? i = some t → s.Valid env i k acts →
    ∀ cmd : Command V K, cmd.target? = some c → ∀ w, cmd.Served env t k (s.edited env i k acts v) w
  /-- When it is not valid, when it is the end, and on every other table, every command at it
  panics and nothing changes. -/
  rejected : ∀ j t, (s.after env acts).table? j = some t →
    ¬(j = i ∧ ∃ k, c.node = some k ∧ s.Valid env i k acts) →
    ∀ cmd : Command V K, cmd.target? = some c → ∃ p, p.isMisuse = true
      ∧ perform env (.on j cmd) (s.after env acts) = .error p (s.after env acts)

theorem perform_of_cell_error (ht : s.table? i = some t) (htarget : cmd.target? = some c)
    {p : Panic} (hcell : t.cell c = .error p) : perform env (.on i cmd) s = .error p s := by
  rw [perform_on ht, Command.run_of_cell_error htarget (s := ⟨t, s.world⟩) hcell]
  exact congrArg (EStateM.Result.error p) (put_self ht s.world)

/-- Cursors of a sound store are accepted exactly as long as they are valid. -/
theorem tracked (h : s.Sound) (ht : s.table? i = some t) (hc : t.Issues c)
    (acts : List (Action V K)) : s.Tracked env i c acts := by
  obtain ⟨l, rfl, hlive⟩ := hc
  have hsound := h.after env acts
  have hnamed : ∀ k, l = some k → ∃ v, t.value? k = some v := by
    rintro k rfl
    obtain ⟨n, hn⟩ := hlive k rfl
    exact ⟨n.value, by rw [Table.value?_eq, hn]; rfl⟩
  refine ⟨fun k hk => ?_, fun t₀ t' ht₀ ht' hwhole => grew_iff_of_whole h ht₀ ht' hwhole,
    fun hback => ?_, fun t' ht' cmd w => Command.takesOut (hsound.table i t' ht').1 env cmd w,
    fun k v t' hk hv ht' hvalid cmd htarget w => ?_, fun j t' ht' hinvalid cmd htarget => ?_⟩
  · rw [value?_eq ht]
    exact hnamed k hk
  · rintro ⟨xs, x, ys, -, hcut⟩
    exact not_cutsShort_of_takesBack hback (h.after env xs) hcut
  · rw [value?_eq ht] at hv
    obtain ⟨hlater, hvalue⟩ := history_after env h ht ht'
    rcases hvalue k v hv with ⟨hv', -⟩ | ⟨-, hremoved⟩
    · rw [Table.value?_eq] at hv'
      obtain ⟨n, hn, hvalue'⟩ := Option.map_eq_some_iff.1 hv'
      have hcell : t'.cell (t.cursor l) = .ok (k, n) :=
        Table.cell_eq_ok_iff.2 ⟨hlater.id.symm, ((growths_eq_iff h ht ht').2 hvalid.1).symm, hk, hn⟩
      rw [← hvalue']
      exact Command.served (hsound.table i t' ht').1 hcell htarget w
    · exact absurd hremoved hvalid.2
  · cases hcell : t'.cell (t.cursor l) with
    | error p =>
        exact ⟨p, Table.isMisuse_of_cell hcell, perform_of_cell_error ht' htarget hcell⟩
    | ok cell =>
        obtain ⟨k, n⟩ := cell
        obtain ⟨hid, hgrowths, hk, hn⟩ := Table.cell_eq_ok_iff.1 hcell
        have hj : j = i := by
          rw [← (hsound.table j t' ht').2, ← hid]
          exact (h.table i t ht).2
        subst hj
        obtain ⟨hlater, hvalue⟩ := history_after env h ht ht'
        obtain ⟨v, hv⟩ := hnamed k hk
        refine absurd ⟨rfl, k, hk, (growths_eq_iff h ht ht').1 hgrowths.symm, ?_⟩ hinvalid
        · rcases hvalue k v hv with ⟨-, hnot⟩ | ⟨hspent, -⟩
          · exact hnot
          · rw [hspent.get?] at hn
            cases hn

/-- Cursors of one table are the same exactly if they are for one element. -/
theorem same_of_issues (h : s.Sound) (ht : s.table? i = some t)
    (ht' : (s.after env acts).table? i = some t') (hc : t.Issues c) (hc' : t'.Issues c') :
    ∃ b, c.same c' = .ok b ∧ c'.same c = .ok b ∧ (b = true ↔ s.SameElement env i acts c c') := by
  obtain ⟨l, rfl, hlive⟩ := hc
  obtain ⟨l', rfl, hlive'⟩ := hc'
  obtain ⟨hlater, hvalue⟩ := history_after env h ht ht'
  have hsame : (t.cursor l).same (t'.cursor l') = .ok (l == l') := if_pos hlater.id.symm
  have hsame' : (t'.cursor l').same (t.cursor l) = .ok (l' == l) := if_pos hlater.id
  rw [Bool.beq_comm] at hsame'
  refine ⟨_, hsame, hsame', ?_⟩
  rw [beq_iff_eq]
  constructor
  · rintro rfl
    cases l with
    | none => exact Or.inl ⟨rfl, rfl⟩
    | some k =>
        refine Or.inr ⟨k, rfl, rfl, fun hremoved => ?_⟩
        obtain ⟨n, hn⟩ := hlive k rfl
        obtain ⟨n', hn'⟩ := hlive' k rfl
        have hv : t.value? k = some n.value := by rw [Table.value?_eq, hn]; rfl
        rcases hvalue k _ hv with ⟨-, hnot⟩ | ⟨hspent, -⟩
        · exact hnot hremoved
        · rw [hspent.get?] at hn'
          cases hn'
  · rintro (⟨hl, hl'⟩ | ⟨k, hl, hl', -⟩)
    · exact hl.trans hl'.symm
    · exact hl.trans hl'.symm

/-- A cursor that a command of some run answers with. Over every further run it is accepted on its
table, and for its element, exactly as long as the table does not grow and the element is not
removed. Compared with a cursor that is issued later it is the same if both name one element or the
end of one table, and cursors of two tables cannot be compared. -/
theorem cursors_after {w : W} {acts : List (Action V K)}
    (ha : (ofWorld w : Store V W).Answers env acts i cmd a) (hc : c ∈ a.issued)
    (later : List (Action V K)) :
    ((ofWorld w).after env acts).Tracked env i c later
      ∧ (∀ v, cmd.inserted a = some (c, v) →
          ∃ k, c.node = some k ∧ ((ofWorld w).after env acts).value? i k = some v)
      ∧ ∀ j cmd' a' c', (ofWorld w : Store V W).Answers env (acts ++ later) j cmd' a' →
          c' ∈ a'.issued →
          if j = i then
            ∃ b, c.same c' = .ok b ∧ c'.same c = .ok b
              ∧ (b = true ↔ ((ofWorld w).after env acts).SameElement env i later c c')
          else c.same c' = .error .unrelatedCursors ∧ c'.same c = .error .unrelatedCursors := by
  have hempty := sound_ofWorld (V := V) w
  have hsound := hempty.after env acts
  obtain ⟨t, ht, hissued, hshows⟩ := ha.issues hempty
  refine ⟨tracked hsound ht (hissued c hc) later, fun v hins => ?_, fun j cmd' a' c' ha' hc' => ?_⟩
  · obtain ⟨k, hk, hv⟩ := hshows c v hins
    exact ⟨k, hk, by rw [value?_eq ht, hv]⟩
  · obtain ⟨t', ht', hissued', -⟩ := ha'.issues hempty
    rw [after_append] at ht'
    by_cases hj : j = i
    · subst hj
      rw [if_pos rfl]
      exact same_of_issues hsound ht ht' (hissued c hc) (hissued' c' hc')
    · rw [if_neg hj]
      obtain ⟨l, rfl, -⟩ := hissued c hc
      obtain ⟨l', rfl, -⟩ := hissued' c' hc'
      have hid := (hsound.table i t ht).2
      have hid' := ((hsound.after env later).table j t' ht').2
      have hne : (t.cursor l).table ≠ (t'.cursor l').table := by
        show t.id ≠ t'.id
        rw [hid, hid']
        exact Ne.symm hj
      exact ⟨if_neg hne, if_neg hne.symm⟩

/-- A supply that does not take buckets back cuts the growth short: there are more of them, and the
cursor from before is accepted. -/
example :
    let env : Environment Nat Nat Unit :=
      { (Policies.mk id Nat.toUInt64 (· == ·)).environment (.unlimited 1024 8 8) with
        deallocate := fun
          | .node, _, w => .ok () w
          | .bucket, _, w => .error (.caller "kept") w }
    let s := (ofWorld ()).after env [.create 0, .on 0 (.insertAny 5), .on 0 (.rehash 54)]
    (s.table? 0).map Table.bucketCount = some 97
      ∧ answer? (perform env (.on 0 (.get ⟨some ⟨0, 0⟩, 0, 0⟩)) s) = some (.value 5) := by
  decide +kernel

/-- The slot of an erased element is used again, and the cursor is not. -/
theorem cursors_after_reuse :
    (ofWorld () : Store Nat Unit).Answers
        ((Policies.mk id Nat.toUInt64 (· == ·)).environment (.unlimited 1024 8 8))
        [.create 0, .on 0 (.insertAny 5)] 0 (.insertAny 5) (.position (.ok ⟨some ⟨0, 0⟩, 0, 0⟩))
      ∧ ⟨some ⟨0, 0⟩, 0, 0⟩ ∈ (Answer.position (.ok ⟨some ⟨0, 0⟩, 0, 0⟩) : Answer Nat).issued
      ∧ ((ofWorld () : Store Nat Unit).after
          ((Policies.mk id Nat.toUInt64 (· == ·)).environment (.unlimited 1024 8 8))
          [.create 0, .on 0 (.insertAny 5)]).Tracked
          ((Policies.mk id Nat.toUInt64 (· == ·)).environment (.unlimited 1024 8 8))
          0 ⟨some ⟨0, 0⟩, 0, 0⟩ [.on 0 (.erase ⟨some ⟨0, 0⟩, 0, 0⟩), .on 0 (.insertAny 7)] :=
  have hanswers : (ofWorld () : Store Nat Unit).Answers
      ((Policies.mk id Nat.toUInt64 (· == ·)).environment (.unlimited 1024 8 8))
      [.create 0, .on 0 (.insertAny 5)] 0 (.insertAny 5)
      (.position (.ok ⟨some ⟨0, 0⟩, 0, 0⟩)) := ⟨[.create 0], rfl, by decide +kernel⟩
  ⟨hanswers, List.mem_singleton.2 rfl, (cursors_after hanswers (List.mem_singleton.2 rfl) _).1⟩

end Store

end SeparateChaining
