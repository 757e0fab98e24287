import SeparateChaining.Proofs.Agreement
import SeparateChaining.Proofs.Contract.Heeding
import SeparateChaining.Proofs.Determined
import SeparateChaining.Proofs.Table.Failure

/-!
# Operations on the elements of a key

Finding a key, counting it, its range, iterating over it and erasing it
go about the same stretch of the table in different ways: by the cursor
to its first element, by a number, by the cursors around it, by an
iterator that counts down, by a loop that follows the links of nodes
which it destroys. All of them go about the block of the key
(`Table.matched`). That is so for any comparison that gives the same
answer each time, be it an equivalence or not: the block ends at the
first gap, wherever else on its chain, on other chains or behind other
hashes equal keys may stand.
-/

namespace SeparateChaining

variable {V K W α : Type}

namespace Op

/-- The operation leaves the table and answers `a`, unless the environment panics. -/
def Reports (env : Environment V K W) (t : Table V) (op : Op W V α) (a : α) : Prop :=
  ∀ w, match op ⟨t, w⟩ with
    | .ok b s => b = a ∧ s.table = t
    | .error r s => env.Raises r ∧ s.table = t

end Op

namespace Table

variable {env : Environment V K W} {p : Policies V K} {t : Table V} {q : K} {r : Option Run}
  {as ms zs : List (Element V)}

open Contract
open Op (Reports)

/-- What an operation can only answer under the policies, it answers. -/
theorem reports_of_keeps (ht : t.Sound) {op : Op W V α} {a : α} {φ : α → Prop}
    (hkeeps : (heeding env.Raises p (· = t) : Contract V K W).Keeps none 0 t op (still t φ))
    (hφ : ∀ b, φ b → b = a) : Reports env t op a := by
  intro w
  cases hrun : op ⟨t, w⟩ with
  | ok b s =>
      obtain ⟨d, t', htable, rfl, -, -, -, hb⟩ :=
        hkeeps.of_run_ok ht.fence ht.wellFormed rfl hrun
      exact ⟨hφ b hb, htable.trans (fencedBy_eq ht.fence)⟩
  | error x s =>
      obtain ⟨t', htable, rfl, -, hraises⟩ :=
        hkeeps.of_run_error ht.fence ht.wellFormed rfl hrun
      exact ⟨hraises, htable.trans (fencedBy_eq ht.fence)⟩

/-! ## Where the block stands -/

/-- The block of `q` in the traversal. If it is empty, it stands at the end. -/
theorem exists_elements_split (hwf : t.chains.WellFormed) (p : Policies V K) (q : K) :
    ∃ as zs, t.chains.elements = as ++ (t.block p q ++ zs) ∧ (t.block p q = [] → zs = []) := by
  by_cases hnil : t.block p q = []
  · exact ⟨t.chains.elements, [], by simp [hnil], fun _ => rfl⟩
  · obtain ⟨xs, ys, hblock⟩ := p.exists_blockAt q (t.homeRow (p.hash q))
    have helements := hwf.elements_split (hwf.home_lt (p.hash q))
    rw [show t.chains.row _ = _ from hblock.split] at helements
    refine ⟨(List.range (t.chains.buckets.home (p.hash q))).flatMap t.chains.row ++ xs,
      ys ++ t.chains.elementsFrom t.chains.row (t.chains.buckets.home (p.hash q) + 1), ?_,
      fun h => absurd h hnil⟩
    rw [helements]
    simp only [List.append_assoc]
    rfl

/-- The cursors around the run that is found and the iterator over it are those of the block. -/
theorem around_of_isRun {C : Contract V K W} (hC : C.Says p) (hwf : t.chains.WellFormed)
    (hsplit : t.chains.elements = as ++ (t.block p q ++ zs)) (hnil : t.block p q = [] → zs = [])
    (h : C.IsRun (p.hash q) q (t.homeRow (p.hash q)) r) :
    t.rangeOf r
        = (t.cursor (Chains.linkTo (t.block p q ++ zs)), t.cursor (Chains.linkTo zs))
      ∧ t.runIterator r = ⟨t.chains, Chains.linkTo (t.block p q ++ zs), Chains.linkTo zs,
          (t.block p q).length⟩ := by
  cases r with
  | none =>
      have hnone : t.block p q = [] := Policies.block_eq_nil fun e he => hC.not_meets (h e he)
      rw [hnil hnone, hnone]
      exact ⟨rfl, rfl⟩
  | some r =>
      obtain ⟨xs, ms, ys, hspans⟩ := h
      obtain ⟨rfl, hne⟩ := hC.spans hspans
      obtain ⟨hstart, hstop⟩ := links_of_spans hwf hspans hne hsplit
      rw [rangeOf, runIterator, hspans.count, hstart, hstop]
      exact ⟨rfl, rfl⟩

/-- A walk from `ms` on meets them one by one, and then what comes after, not before. -/
theorem steps_of_split (hwf : t.chains.WellFormed) (hsplit : t.chains.elements = as ++ (ms ++ zs))
    {n : Nat} (hn : n ≤ ms.length) :
    ∃ c, t.advance n (t.cursor (Chains.linkTo (ms ++ zs))) = .ok c
      ∧ (c = t.cursor (Chains.linkTo zs) ↔ n = ms.length)
      ∧ ∀ m, ms[n]? = some m → c = t.cursor (some m.key) ∧ t.get c = .ok m.value := by
  have hat : ∀ j ≤ ms.length,
      t.cursorAt (as.length + j) = t.cursor (Chains.linkTo (ms.drop j ++ zs)) := by
    intro j hj
    rw [cursorAt_eq, hsplit, List.drop_append, List.drop_of_length_le (Nat.le_add_right ..),
      Nat.add_sub_cancel_left, List.drop_append_of_le_length hj, List.nil_append]
  have hlength : as.length + ms.length ≤ t.size := by
    show _ ≤ t.chains.size
    rw [← hwf.length_elements, hsplit, List.length_append, List.length_append]
    omega
  have hstart := hat 0 (Nat.zero_le _)
  have hstop := hat ms.length (Nat.le_refl _)
  rw [List.drop_length, List.nil_append] at hstop
  refine ⟨t.cursorAt (as.length + n), ?_, ⟨fun hsame => ?_, ?_⟩, fun m hm => ?_⟩
  · rw [← List.drop_zero (l := ms), ← hstart]
    exact advance_cursorAt hwf (Nat.le_trans (Nat.add_le_add_left hn _) hlength)
  · rw [← hstop] at hsame
    exact Nat.add_left_cancel (cursorAt_inj hwf (by omega) hlength hsame)
  · rintro rfl
    exact hstop
  · obtain ⟨hlt, rfl⟩ := List.getElem?_eq_some_iff.1 hm
    have hsplit' : t.chains.elements
        = (as ++ ms.take n) ++ ms[n] :: (ms.drop (n + 1) ++ zs) := by
      rw [hsplit, List.append_assoc, ← List.cons_append, ← List.drop_eq_getElem_cons hlt,
        ← List.append_assoc (ms.take n), List.take_append_drop]
    rw [hat n hn, List.drop_eq_getElem_cons hlt]
    exact ⟨rfl, (hwf.step_eq hsplit').1⟩

/-! ## Looking up -/

theorem reports_find (henv : env.Speaks p) (ht : t.Sound) (q : K) :
    Reports env t (find env q) (t.cursor (Chains.linkTo (t.block p q))) := by
  refine reports_of_keeps ht (keeps_find (obeyed_speaking henv (fun _ h => h) _) q) ?_
  rintro c ⟨hash, k, rfl, hk, rfl⟩
  rw [says_heeding.firstMatch hk]
  rfl

theorem reports_contains (henv : env.Speaks p) (ht : t.Sound) (q : K) :
    Reports env t (contains env q) (decide (0 < (t.block p q).length)) := by
  refine reports_of_keeps ht (keeps_contains (obeyed_speaking henv (fun _ h => h) _) q) ?_
  rintro b ⟨hash, k, rfl, hk, rfl⟩
  rw [says_heeding.firstMatch hk]
  show (Chains.linkTo (t.block p q)).isSome = _
  cases t.block p q with
  | nil => rfl
  | cons m ms => rfl

theorem reports_count (henv : env.Speaks p) (ht : t.Sound) (q : K) :
    Reports env t (count env q) (t.block p q).length := by
  refine reports_of_keeps ht (keeps_count (obeyed_speaking henv (fun _ h => h) _) q) ?_
  rintro n ⟨hash, r, rfl, hr, rfl⟩
  rw [says_heeding.isRun hr]
  exact p.count_runIn q _

theorem reports_range (henv : env.Speaks p) (ht : t.Sound)
    (hsplit : t.chains.elements = as ++ (t.block p q ++ zs)) (hnil : t.block p q = [] → zs = []) :
    Reports env t (range env q)
      (t.cursor (Chains.linkTo (t.block p q ++ zs)), t.cursor (Chains.linkTo zs)) := by
  refine reports_of_keeps ht (keeps_range (obeyed_speaking henv (fun _ h => h) _) q) ?_
  rintro c ⟨hash, r, rfl, hr, rfl⟩
  exact (around_of_isRun says_heeding ht.wellFormed hsplit hnil hr).1

theorem reports_iteratorOf (henv : env.Speaks p) (ht : t.Sound)
    (hsplit : t.chains.elements = as ++ (t.block p q ++ zs)) (hnil : t.block p q = [] → zs = []) :
    Reports env t (iteratorOf env q) ⟨t.chains, Chains.linkTo (t.block p q ++ zs),
      Chains.linkTo zs, (t.block p q).length⟩ := by
  refine reports_of_keeps ht (keeps_iteratorOf (obeyed_speaking henv (fun _ h => h) _) q) ?_
  rintro it ⟨hash, r, rfl, hr, rfl⟩
  exact (around_of_isRun says_heeding ht.wellFormed hsplit hnil hr).2

/-! ## Erasing -/

/-- Erasing the elements of a key is seeking them and then taking the block out. -/
theorem eraseRun_eq (henv : env.Speaks p) (ht : t.Sound) (q : K) (w : W) :
    match Op.fenced .eraseRun (runOf env q) ⟨t, w⟩ with
    | .ok _ s => eraseRun env q ⟨t, w⟩
        = (do takeOut env (t.block p q); return (t.block p q).length : Op W V Nat) s
    | .error x s => eraseRun env q ⟨t, w⟩ = .error x s := by
  have hobeyed := obeyed_speaking henv (fun _ h => h) (· = t)
  rcases hrun : Op.fenced .eraseRun (runOf env q) ⟨t, w⟩ with ⟨r, ⟨t', w'⟩⟩ | ⟨x, s⟩
  · obtain ⟨d, m, htable, rfl, -, -, -, hash, rfl, hr⟩ :=
      (keeps_runOf hobeyed q).fenced.of_run_ok ht.fence ht.wellFormed rfl hrun
    obtain rfl : t' = m := htable.trans (fencedBy_eq ht.fence)
    rw [eraseRun, Op.run_bind_ok hrun]
    cases r with
    | none =>
        rw [show t'.block p q = [] from
          Policies.block_eq_nil fun e he => says_heeding.not_meets (hr e he)]
        rfl
    | some r =>
        obtain ⟨xs, ms, ys, hspans⟩ := hr
        obtain ⟨hms, -⟩ := says_heeding.spans hspans
        have halong : eraseAlong env r.count (some r.first) ⟨t'.fencedBy none, w'⟩ = _ :=
          eraseAlong_run ht.wellFormed hspans w'
        rw [fencedBy_eq ht.fence, hms] at halong
        show (eraseAlong env r.count (some r.first) >>= fun _ => pure r.count) _ = _
        rw [Op.run_bind_congr halong, hspans.count, hms]
        rfl
  · exact Op.run_bind_error hrun _

theorem run_eraseRun (henv : env.Speaks p) (ht : t.Sound) (q : K) (w : W) :
    match eraseRun env q ⟨t, w⟩ with
    | .ok n s => n = (t.block p q).length
        ∧ s.table = t.withoutAll (Chains.keysOf (t.block p q))
    | .error x s => env.Raises x ∧ RunCut env w t q x s.table := by
  have hobeyed := obeyed_speaking henv (fun _ h => h) fun _ => True
  have hkeeps := keeps_eraseRun (t := t) hobeyed (fun _ _ _ _ _ _ _ => trivial) q
  cases hrun : eraseRun env q ⟨t, w⟩ with
  | error x s =>
      obtain ⟨t', -, -, -, hraises⟩ :=
        hkeeps.of_run_error ht.fence ht.wellFormed trivial hrun
      exact ⟨hraises, runCut_of_eraseRun ht.fence ht.wellFormed hrun⟩
  | ok n s =>
      obtain ⟨d, t', htable, -, -, -, hash, rfl, hout⟩ :=
        hkeeps.of_run_ok ht.fence ht.wellFormed trivial hrun
      rcases hout with ⟨rfl, rfl, hdiffer⟩ | ⟨r, xs, ms, ys, hspans, rfl, rfl⟩
      · rw [show t'.block p q = [] from
          Policies.block_eq_nil fun e he => says_heeding.not_meets (hdiffer e he)]
        exact ⟨rfl, htable.trans (fencedBy_eq ht.fence)⟩
      · obtain ⟨rfl, -⟩ := says_heeding.spans hspans
        exact ⟨rfl, htable.trans (fencedBy_eq ht.fence)⟩

/-! ## Agreement -/

/-- All operations on the elements of `q` go about the elements `ms`, which stand in the table from
`start` up to `stop`. -/
structure Matched (env : Environment V K W) (p : Policies V K) (t : Table V) (q : K)
    (ms : List (Element V)) (start stop : Cursor) : Prop where
  block : ∃ xs ys, p.BlockAt q (t.homeRow (p.hash q)) xs ms ys
  find : Reports env t (find env q) start
  range : Reports env t (range env q) (start, stop)
  contains : Reports env t (contains env q) (decide (0 < ms.length))
  count : Reports env t (count env q) ms.length
  steps : ∀ n ≤ ms.length, ∃ c, t.advance n start = .ok c ∧ (c = stop ↔ n = ms.length)
    ∧ ∀ m, ms[n]? = some m → c = t.cursor (some m.key) ∧ t.get c = .ok m.value
  walk : t.walk start stop = .ok (ms.map (·.value))
  iterator : ∃ it, Reports env t (iteratorOf env q) it ∧ it.Yields (ms.map (·.value))
    ∧ it.remaining = ms.length
  erase : ∀ w, match eraseRun env q ⟨t, w⟩ with
    | .ok n s => n = ms.length ∧ s.table = t.withoutAll (Chains.keysOf ms)
    | .error x s => env.Raises x ∧ RunCut env w t q x s.table
  once : ∀ w, match Op.fenced .eraseRun (runOf env q) ⟨t, w⟩ with
    | .ok _ s => eraseRun env q ⟨t, w⟩
        = (do takeOut env ms; return ms.length : Op W V Nat) s
    | .error x s => eraseRun env q ⟨t, w⟩ = .error x s
  left : ∃ as zs, t.chains.elements = as ++ (ms ++ zs)
    ∧ (t.withoutAll (Chains.keysOf ms)).chains.elements = as ++ zs
  row : ∀ i, (t.withoutAll (Chains.keysOf ms)).chains.row i
    = (t.chains.row i).filter fun e => e.key ∉ Chains.keysOf ms

theorem matched (henv : env.Speaks p) (ht : t.Sound) (q : K) :
    ∃ start stop, Matched env p t q (t.block p q) start stop := by
  have hwf := ht.wellFormed
  obtain ⟨as, zs, hsplit, hnil⟩ := exists_elements_split hwf p q
  have hsame : Chains.linkTo (t.block p q ++ zs) = Chains.linkTo (t.block p q) := by
    cases hblock : t.block p q with
    | nil => rw [hnil hblock]; rfl
    | cons m ms => rfl
  refine ⟨t.cursor (Chains.linkTo (t.block p q ++ zs)), t.cursor (Chains.linkTo zs),
    p.exists_blockAt q _, ?_, reports_range henv ht hsplit hnil, reports_contains henv ht q,
    reports_count henv ht q, fun n hn => steps_of_split hwf hsplit hn, hwf.walk_eq hsplit,
    ⟨_, reports_iteratorOf henv ht hsplit hnil, hwf.yields hsplit, rfl⟩, run_eraseRun henv ht q,
    eraseRun_eq henv ht q, ⟨as, zs, hsplit, ?_⟩, fun i => congrFun (hwf.withoutAll _).row_eq i⟩
  · rw [hsame]
    exact reports_find henv ht q
  · have hnodup := hwf.nodup_elements
    rw [hsplit] at hnodup
    show (t.chains.withoutAll _).elements = _
    rw [hwf.elements_withoutAll, hsplit, Chains.filter_key_notMem hnodup]

end Table

/-! ## Runs -/

namespace Store

/-- After any run under any policies: whatever a comparison with `q` answers, as long as it answers
the same each time, all operations on the elements of `q` go about its block. -/
theorem matched_after (past : Environment V K W) (w₀ : W) (acts : List (Action V K)) {i : Nat}
    {t : Table V} (ht : ((ofWorld w₀ : Store V W).after past acts).table? i = some t)
    {env : Environment V K W} {p : Policies V K} (henv : env.Speaks p) (q : K) :
    ∃ start stop, Table.Matched env p t q (t.block p q) start stop :=
  Table.matched henv (((sound_ofWorld w₀).after past acts).table i t ht).1 q

/-- A key is taken to equal all keys below it. With 8 the block ends at a gap, behind which another
element would meet it; with 3 it is the whole table. -/
theorem matched_after_order :
    ∃ (p : Policies Nat Nat) (env : Environment Nat Nat Unit) (t : Table Nat),
      p = ⟨id, fun _ => 7, fun a b => decide (b ≤ a)⟩
      ∧ env = p.environment (.unlimited 4096 8 8) ∧ env.Speaks p
      ∧ ((ofWorld ()).after env [.create 0, .on 0 (.insertAny 10), .on 0 (.insertAny 5),
        .on 0 (.insertAny 20), .on 0 (.insertAny 7)]).table? 0 = some t
      ∧ t.values = [20, 7, 10, 5]
      ∧ (∃ stop, Table.Matched env p t 8 (t.block p 8) t.firstCursor stop
        ∧ t.get stop = .ok 7 ∧ (t.block p 8).map (·.value) = [20])
      ∧ Table.Matched env p t 3 (t.block p 3) t.firstCursor t.endCursor
      ∧ (t.block p 3).map (·.value) = [20, 7, 10, 5] := by
  generalize hp : (Policies.mk id (fun _ => 7) (fun a b => decide (b ≤ a)) : Policies Nat Nat) = p
  generalize henv : p.environment (.unlimited 4096 8 8 : Supply Unit) = env
  have hmade : (((ofWorld ()).after env [.create 0, .on 0 (.insertAny 10), .on 0 (.insertAny 5),
      .on 0 (.insertAny 20), .on 0 (.insertAny 7)]).table? 0).map (fun t =>
        ([t.values, (t.block p 8).map (·.value), (t.block p 3).map (·.value)],
        match Table.range env 8 ⟨t, ()⟩ with
        | .ok c _ => some (c.1 == t.firstCursor, (t.get c.2).toOption)
        | .error _ _ => none,
        match Table.range env 3 ⟨t, ()⟩ with
        | .ok c _ => c == (t.firstCursor, t.endCursor)
        | .error _ _ => false))
      = some ([[20, 7, 10, 5], [20], [20, 7, 10, 5]], some (true, some 7), true) := by
    subst henv hp
    decide +kernel
  obtain ⟨t, ht, hcomputed⟩ := Option.map_eq_some_iff.1 hmade
  simp only [Prod.mk.injEq, List.cons.injEq] at hcomputed
  obtain ⟨⟨hvalues, hblock, hall, -⟩, hrange, hwhole⟩ := hcomputed
  have hspeaks : env.Speaks p := henv ▸ p.speaks_environment _
  obtain ⟨start, stop, hmatched⟩ := matched_after env () _ ht hspeaks 8
  obtain ⟨start', stop', hmatched'⟩ := matched_after env () _ ht hspeaks 3
  refine ⟨p, env, t, rfl, henv.symm, hspeaks, ht, hvalues, ⟨stop, ?_⟩, ?_, hall⟩
  · have hreport := hmatched.range ()
    rcases hrun : Table.range env 8 ⟨t, ()⟩ with ⟨c, s⟩ | ⟨x, s⟩
    · rw [hrun] at hreport
      obtain ⟨rfl, -⟩ := hreport
      simp only [hrun, Option.some.injEq, Prod.mk.injEq, beq_iff_eq] at hrange
      obtain ⟨rfl, hget⟩ := hrange
      refine ⟨hmatched, ?_, hblock⟩
      rcases hat : t.get stop with x | v
      · rw [hat] at hget
        cases hget
      · rw [hat] at hget
        rw [Option.some.inj hget]
    · simp only [hrun] at hrange
      cases hrange
  · have hreport := hmatched'.range ()
    rcases hrun : Table.range env 3 ⟨t, ()⟩ with ⟨c, s⟩ | ⟨x, s⟩
    · rw [hrun] at hreport
      obtain ⟨rfl, -⟩ := hreport
      simp only [hrun, beq_iff_eq, Prod.mk.injEq] at hwhole
      obtain ⟨rfl, rfl⟩ := hwhole
      exact hmatched'
    · simp only [hrun] at hwhole
      cases hwhole

end Store

end SeparateChaining
