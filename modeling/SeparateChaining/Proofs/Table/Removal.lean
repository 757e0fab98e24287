import SeparateChaining.Proofs.Chains.Linking
import SeparateChaining.Proofs.Table.Lookup
import SeparateChaining.Table.Removal

/-!
# What removing leaves

Every removal takes nodes out one by one, whether one element is erased,
a run or all of them. Taking one out is one change of the table, from
`t` to `t.without k`, and puts the node's unit into the debt until the
unit is returned; only then does foreign code dispose of the value. The
loops over a run and over all chains are one and the same, `takeOut`,
over the elements that they meet (`eraseAlong_eq`, `clearBuckets_eq`),
and leave the table without exactly these. A loop that is cut short by a
panic leaves it without those before the cut and the one at it
(`takeOut_spec`).
-/

namespace SeparateChaining

variable {V K W : Type}

namespace Table

/-- The table without the node that `k` names. -/
def without (t : Table V) (k : ArenaKey) : Table V := { t with chains := t.chains.without k }

/-- The table without the nodes that `ks` name. -/
def withoutAll (t : Table V) (ks : List ArenaKey) : Table V :=
  { t with chains := t.chains.withoutAll ks }

theorem wellFormed_without {t : Table V} (h : t.chains.WellFormed) (k : ArenaKey) :
    (t.without k).chains.WellFormed :=
  (h.without k).wellFormed

theorem row_without {t : Table V} (h : t.chains.WellFormed) (k : ArenaKey) (i : Nat) :
    (t.without k).chains.row i = (t.chains.row i).filter fun e => e.key ≠ k :=
  congrFun (h.without k).row_eq i

end Table

/-- Taking a node out puts its unit into the debt. -/
def Contract.Unlinks (C : Contract V K W) : Prop :=
  ∀ t k e w, t.chains.WellFormed → t.chains.element? k = some e →
    C.inv 0 t w → C.inv ((0 : Debt).add .node 1) (t.without k) w

namespace Table

variable {C : Contract V K W} {env : Environment V K W} {f : Option Operation} {t : Table V}

open Contract

/-! ## One node -/

/-- What is left to do after a node was taken out: its unit is returned while its value is held. -/
def returnUnit (env : Environment V K W) (v : V) : Op W V (Option V) := do
  env.holding v (.world (env.deallocate .node 1))
  return some v

/-- A live node is found on its chain, unlinked and deleted before its unit is returned. -/
theorem removeNode_eq (hwf : t.chains.WellFormed) {k : ArenaKey} {e : Element V}
    (he : t.chains.element? k = some e) (w : W) :
    removeNode env k ⟨t.fencedBy f, w⟩ = returnUnit env e.value ⟨(t.without k).fencedBy f, w⟩ := by
  obtain ⟨p, hplace, hdelete⟩ := hwf.exists_place he
  have hplace' : (t.fencedBy f).chains.placeOf? k = some p := hplace
  have hdelete' : ((t.fencedBy f).chains.bypass p k).delete k
      = (some e.value, t.chains.without k) := hdelete
  rw [removeNode, Op.run_read_bind, hplace']
  show (Op.change _ >>= fun _ => Op.change _ >>= _) _ = _
  rw [Op.run_change_bind, Op.run_change_bind]
  simp only [hdelete']
  rfl

theorem keeps_returnUnit (henv : C.Obeyed env) (v : V) :
    C.Keeps f ((0 : Debt).add .node 1) t (returnUnit env v) (still t fun r => r = some v) := by
  refine (Keeps.holding henv v (Keeps.world (Uses.deallocate henv .node 1))).bind ?_
  intro _ d t' hr
  obtain ⟨rfl, rfl⟩ := hr
  exact Keeps.pure ⟨rfl, rfl, rfl⟩

/-! ## The element at a cursor -/

theorem removeAt_of_cell_error {s : Running V W} {op : Operation} {c : Cursor} {p : Panic}
    (hcell : s.table.cell c = .error p) : removeAt env op c s = .error p s := by
  unfold removeAt
  exact Op.run_bind_error (Op.run_query_error hcell) _

theorem element?_of_cell {c : Cursor} {k : ArenaKey} {n : Node V} (hcell : t.cell c = .ok (k, n)) :
    c.node = some k ∧ t.chains.nodes.get? k = some n := by
  unfold cell at hcell
  split at hcell
  · cases hcell
  · split at hcell
    · cases hcell
    · split at hcell
      · cases hcell
      · rename_i j hnode
        split at hcell
        · rename_i m hm
          cases hcell
          exact ⟨hnode, hm⟩
        · cases hcell

/-- What a removal hands over: the cursor after the element, and the value if it was found. -/
def handOver (next : Cursor) : Option V → Op W V (Cursor × V)
  | some v => return (next, v)
  | none => throw .unlinkedNode

/-- What is left to do when the element at a cursor was taken out in the name of `op`. -/
def finishRemoval (env : Environment V K W) (op : Operation) (next : Cursor) (v : V) :
    Op W V (Cursor × V) :=
  .fenced op do
    let _ ← returnUnit env v
    return (next, v)

/-- The element at a cursor is taken out before anything foreign runs. -/
theorem removeAt_eq (hwf : t.chains.WellFormed) {op : Operation} {c : Cursor} {k : ArenaKey}
    {n : Node V} (hcell : t.cell c = .ok (k, n)) (w : W) :
    removeAt env op c ⟨t.fencedBy none, w⟩
      = finishRemoval env op (t.cursor (t.chains.successor k)) n.value
          ⟨(t.without k).fencedBy none, w⟩ := by
  have he : t.chains.element? k = some ⟨k, n.value, n.hash⟩ :=
    Chains.element?_eq_some.2 ⟨n, (element?_of_cell hcell).2, rfl⟩
  have hcell' : (t.fencedBy none).cell c = .ok (k, n) := hcell
  have hbody : (do
      let next ← Op.read fun t => t.cursor (t.chains.successor k)
      handOver next (← removeNode env k) : Op W V (Cursor × V)) ⟨t.fencedBy (some op), w⟩
      = (do
        let _ ← returnUnit env n.value
        return (t.cursor (t.chains.successor k), n.value) : Op W V (Cursor × V))
          ⟨(t.without k).fencedBy (some op), w⟩ := by
    rw [Op.run_read_bind, Op.run_bind_congr (removeNode_eq hwf he w)]
    show (returnUnit env n.value >>= _ : Op W V (Cursor × V)) _ = _
    unfold returnUnit
    rw [bind_assoc, bind_assoc]
    rfl
  rw [removeAt, Op.run_query_bind hcell', finishRemoval]
  exact Op.fenced_congr hbody

theorem keeps_finishRemoval (henv : C.Obeyed env) (op : Operation) (next : Cursor) (v : V) :
    C.Keeps none ((0 : Debt).add .node 1) t (finishRemoval env op next v)
      (still t fun r => r = (next, v)) := by
  refine Keeps.fenced ((keeps_returnUnit henv v).bind fun r d t' hr => ?_)
  obtain ⟨rfl, rfl, -⟩ := hr
  exact Keeps.pure ⟨rfl, rfl, rfl⟩

theorem keeps_removeAt (henv : C.Obeyed env) (hunlinks : C.Unlinks) {op : Operation} {c : Cursor}
    {k : ArenaKey} {n : Node V} (hcell : t.cell c = .ok (k, n)) :
    C.Keeps none 0 t (removeAt env op c)
      (still (t.without k) fun r => r = (t.cursor (t.chains.successor k), n.value)) := by
  intro w hinv hwf
  have he : t.chains.element? k = some ⟨k, n.value, n.hash⟩ :=
    Chains.element?_eq_some.2 ⟨n, (element?_of_cell hcell).2, rfl⟩
  rw [removeAt_eq hwf hcell w]
  exact keeps_finishRemoval henv op _ _ w (hunlinks t k _ w hwf he hinv) (wellFormed_without hwf k)

theorem keeps_erase (henv : C.Obeyed env) (hunlinks : C.Unlinks) {c : Cursor} {k : ArenaKey}
    {n : Node V} (hcell : t.cell c = .ok (k, n)) :
    C.Keeps none 0 t (erase env c)
      (still (t.without k) fun c' => c' = t.cursor (t.chains.successor k)) := by
  refine (keeps_removeAt henv hunlinks hcell).bind ?_
  intro r d t' hr
  obtain ⟨rfl, rfl, rfl⟩ := hr
  refine (Keeps.disposeOp henv n.value).bindStill ?_
  intro _ _
  exact Keeps.pure ⟨rfl, rfl, rfl⟩

theorem keeps_remove (henv : C.Obeyed env) (hunlinks : C.Unlinks) {c : Cursor} {k : ArenaKey}
    {n : Node V} (hcell : t.cell c = .ok (k, n)) :
    C.Keeps none 0 t (remove env c) (still (t.without k) fun v => v = n.value) := by
  refine (keeps_removeAt henv hunlinks hcell).bind ?_
  intro r d t' hr
  obtain ⟨rfl, rfl, rfl⟩ := hr
  exact Keeps.pure ⟨rfl, rfl, rfl⟩

/-! ## Several elements -/

/-- What is left to do for a node that was taken out: its unit is returned and its value disposed
of. -/
def giveUp (env : Environment V K W) (v : V) : Op W V Unit := do
  (← returnUnit env v).forM env.disposeOp

/-- Takes elements out one by one, each before foreign code sees the table. -/
def takeOut (env : Environment V K W) : List (Element V) → Op W V Unit
  | [] => return ()
  | e :: es => do
    .change fun t => ((), t.without e.key)
    giveUp env e.value
    takeOut env es

theorem leaves_giveUp (env : Environment V K W) (v : V) (s : Running V W) :
    Op.Leaves s.table (giveUp env v s) := by
  have hreturn : Op.Leaves s.table (returnUnit env v s) :=
    ((Op.leaves_world _ s).onPanic _).bind fun _ _ => rfl
  refine hreturn.bind fun r w => ?_
  cases r with
  | none => rfl
  | some u => exact Op.leaves_call (fun t => env.dispose t u) ⟨s.table, w⟩

theorem giveUp_of_removeNode (hwf : t.chains.WellFormed) {k : ArenaKey} {e : Element V}
    (he : t.chains.element? k = some e) (w : W) :
    (removeNode env k >>= fun r => r.forM env.disposeOp) ⟨t.fencedBy f, w⟩
      = giveUp env e.value ⟨(t.without k).fencedBy f, w⟩ :=
  Op.run_bind_congr (removeNode_eq hwf he w)

theorem takeOut_append (es es' : List (Element V)) :
    takeOut env (es ++ es') = takeOut env es >>= fun _ => takeOut env es' := by
  induction es with
  | nil => rfl
  | cons e es ih =>
      rw [List.cons_append, takeOut, takeOut, ih, bind_assoc]
      refine congrArg (Op.change _ >>= ·) (funext fun _ => ?_)
      rw [bind_assoc]

/-- The elements are gone, or, if giving one up panics, those before it and that one. -/
theorem takeOut_spec (env : Environment V K W) (es : List (Element V)) (t : Table V) (w : W) :
    match takeOut env es ⟨t.fencedBy f, w⟩ with
    | .ok _ s => s.table = (t.withoutAll (Chains.keysOf es)).fencedBy f
    | .error p s => ∃ xs e ys w', es = xs ++ e :: ys
        ∧ s.table = (t.withoutAll (Chains.keysOf (xs ++ [e]))).fencedBy f
        ∧ giveUp env e.value ⟨s.table, w'⟩ = .error p s := by
  induction es generalizing t w with
  | nil => exact rfl
  | cons e es ih =>
      have hleaves := leaves_giveUp env e.value ⟨(t.without e.key).fencedBy f, w⟩
      rw [takeOut, Op.run_change_bind]
      show match (giveUp env e.value >>= fun _ => takeOut env es)
          ⟨(t.without e.key).fencedBy f, w⟩ with
        | .ok _ s => _
        | .error p s => _
      cases hrun : giveUp env e.value ⟨(t.without e.key).fencedBy f, w⟩ with
      | error p s =>
          rw [hrun] at hleaves
          rw [Op.run_bind_error hrun]
          refine ⟨[], e, es, w, rfl, hleaves, ?_⟩
          rw [show s.table = _ from hleaves]
          exact hrun
      | ok u s =>
          rw [hrun] at hleaves
          obtain ⟨table, w'⟩ := s
          obtain rfl : table = _ := hleaves
          rw [Op.run_bind_ok hrun]
          have hrest := ih (t.without e.key) w'
          cases htake : takeOut env es ⟨(t.without e.key).fencedBy f, w'⟩ with
          | ok u s =>
              rw [htake] at hrest
              exact hrest
          | error p s =>
              rw [htake] at hrest
              obtain ⟨xs, e', ys, w'', rfl, htable, hpanic⟩ := hrest
              exact ⟨e :: xs, e', ys, w'', rfl, htable, hpanic⟩

/-- Taking out elements that live keeps the contract. -/
theorem keeps_takeOut (henv : C.Obeyed env) (hunlinks : C.Unlinks) {es : List (Element V)}
    (hlive : ∀ e ∈ es, t.chains.element? e.key = some e) (hnodup : (Chains.keysOf es).Nodup) :
    C.Keeps f 0 t (takeOut env es) (still (t.withoutAll (Chains.keysOf es)) fun _ => True) := by
  induction es generalizing t with
  | nil => exact Keeps.pure ⟨rfl, rfl, trivial⟩
  | cons e es ih =>
      refine Keeps.of_wellFormed ?_
      intro hwf
      obtain ⟨he, hlive⟩ := List.forall_mem_cons.1 hlive
      obtain ⟨hnew, hnodup⟩ := List.nodup_cons.1 hnodup
      have hlive' : ∀ e' ∈ es, (t.without e.key).chains.element? e'.key = some e' := by
        intro e' he'
        have hne : e'.key ≠ e.key :=
          fun heq => hnew (List.mem_map.2 ⟨e', he', heq⟩)
        rw [without, hwf.element?_without, if_neg hne]
        exact hlive e' he'
      unfold takeOut giveUp
      refine Keeps.bindChange rfl (wellFormed_without hwf e.key)
        (fun w hinv => hunlinks t e.key e w hwf he hinv) ?_
      rw [bind_assoc]
      refine (keeps_returnUnit henv e.value).bind fun r d t' hr => ?_
      obtain ⟨rfl, rfl, rfl⟩ := hr
      refine (Keeps.disposeOp henv e.value).bindStill ?_
      intro _ _
      exact ih hlive' hnodup

/-! ## A run -/

/-- Removing along a chain is taking its elements out one by one. The induction is on the elements
to go: those before them and those after them stay where they are. -/
theorem eraseAlong_eq {i : Nat} {xs ms ys : List (Element V)} (hwf : t.chains.WellFormed)
    (hrow : t.chains.row i = xs ++ (ms ++ ys)) {l : Link}
    (hl : Chains.Segment t.chains.nodes l (ms ++ ys) none) (w : W) :
    eraseAlong env ms.length l ⟨t.fencedBy f, w⟩ = takeOut env ms ⟨t.fencedBy f, w⟩ := by
  induction ms generalizing t l w with
  | nil => unfold eraseAlong takeOut; rfl
  | cons e ms ih =>
      obtain ⟨rfl, n, hn, he, hrest⟩ := Chains.segment_cons_iff.1 hl
      have helem : t.chains.element? e.key = some e := Chains.element?_eq_some.2 ⟨n, hn, he⟩
      have hrow' : (t.without e.key).chains.row i = xs ++ (ms ++ ys) := by
        have hnodup := hwf.nodup i
        rw [hrow, List.cons_append] at hnodup
        rw [row_without hwf, hrow, List.cons_append]
        exact Chains.filter_key_ne hnodup
      have hnext : (t.fencedBy f).chains.linkAt (.after e.key) = n.next := by
        show t.chains.linkAt (.after e.key) = n.next
        rw [Chains.linkAt, hn]
        rfl
      rw [List.length_cons, eraseAlong, takeOut, Op.run_read_bind, hnext, ← bind_assoc,
        Op.run_bind_congr (giveUp_of_removeNode hwf helem w), Op.run_change_bind]
      exact (leaves_giveUp env e.value _).bind_congr fun _ w =>
        ih (wellFormed_without hwf _) hrow' (hwf.segment_without hrow hrest) w

/-- The elements of a run that was found hang on its first node, and those after it on them. -/
theorem segment_of_spans (hwf : t.chains.WellFormed) {hash : UInt64} {q : K} {r : Run}
    {xs ms ys : List (Element V)} (h : C.Spans hash q (t.homeRow hash) r xs ms ys) :
    Chains.Segment t.chains.nodes (some r.first) (ms ++ ys) none := by
  have hchain := hwf.linked (t.chains.buckets.home hash)
  rw [show t.chains.row _ = _ from h.split] at hchain
  obtain ⟨l, -, hl⟩ := Chains.segment_append.1 hchain
  have hstart : l = some r.first := by
    obtain ⟨m, hm, hkey, -⟩ := h.start
    obtain ⟨zs, hzs⟩ := List.head?_eq_some_iff.1 hm
    rw [hzs] at hl
    rw [(Chains.segment_cons_iff.1 hl).1, hkey]
  rwa [hstart] at hl

theorem live_of_spans (hwf : t.chains.WellFormed) {hash : UInt64} {q : K} {r : Run}
    {xs ms ys : List (Element V)} (h : C.Spans hash q (t.homeRow hash) r xs ms ys) :
    (∀ e ∈ ms, t.chains.element? e.key = some e) ∧ (Chains.keysOf ms).Nodup := by
  have hmem : ms.Sublist (t.chains.row (t.chains.buckets.home hash)) := by
    rw [show t.chains.row _ = _ from h.split]
    exact (List.sublist_append_left ms ys).trans (List.sublist_append_right xs _)
  exact ⟨fun e he => (hwf.mem_iff.1 (hmem.subset he)).1, (hwf.nodup _).sublist (hmem.map _)⟩

/-- The elements that a walk meets from the first node of a run on, as many as the run counts. -/
def along (t : Table V) (r : Run) : List (Element V) :=
  ((t.chains.cellsFrom (some r.first)).map .ofCell).take r.count

theorem along_of_spans (hwf : t.chains.WellFormed) {hash : UInt64} {q : K} {r : Run}
    {xs ms ys : List (Element V)} (h : C.Spans hash q (t.homeRow hash) r xs ms ys) :
    t.along r = ms := by
  rw [along, (segment_of_spans hwf h).cellsFrom_eq, h.count, List.take_left]

/-- Removing a run that was found is taking its elements out. -/
theorem eraseAlong_run (hwf : t.chains.WellFormed) {hash : UInt64} {q : K} {r : Run}
    {xs ms ys : List (Element V)} (h : C.Spans hash q (t.homeRow hash) r xs ms ys) (w : W) :
    eraseAlong env r.count (some r.first) ⟨t.fencedBy f, w⟩
      = takeOut env ms ⟨t.fencedBy f, w⟩ := by
  rw [h.count]
  exact eraseAlong_eq hwf h.split (segment_of_spans hwf h) w

theorem keeps_eraseRun (henv : C.Obeyed env) (hunlinks : C.Unlinks) (q : K) :
    C.Keeps none 0 t (eraseRun env q) fun count d t' => d = 0 ∧ ∃ hash, C.hash q hash
      ∧ ((count = 0 ∧ t' = t ∧ ∀ e ∈ t.homeRow hash, C.Differs hash q e)
        ∨ ∃ r xs ms ys, C.Spans hash q (t.homeRow hash) r xs ms ys ∧ count = ms.length
          ∧ t' = t.withoutAll (Chains.keysOf ms)) := by
  unfold eraseRun
  refine (Keeps.fenced (keeps_runOf henv q)).bindStill ?_
  intro r hr
  obtain ⟨hash, hhash, hr⟩ := hr
  cases r with
  | none => exact Keeps.pure ⟨rfl, hash, hhash, Or.inl ⟨rfl, rfl, hr⟩⟩
  | some r =>
      obtain ⟨xs, ms, ys, hspans⟩ := hr
      have hrun : C.Keeps none 0 t (eraseAlong env r.count (some r.first))
          (still (t.withoutAll (Chains.keysOf ms)) fun _ => True) := by
        intro w hinv hwf
        obtain ⟨hlive, hnodup⟩ := live_of_spans hwf hspans
        rw [eraseAlong_run hwf hspans w]
        exact keeps_takeOut henv hunlinks hlive hnodup w hinv hwf
      refine hrun.bind ?_
      intro _ d t' hr
      obtain ⟨rfl, rfl, -⟩ := hr
      exact Keeps.pure ⟨rfl, hash, hhash, Or.inr ⟨r, xs, ms, ys, hspans, hspans.count, rfl⟩⟩

/-! ## All chains -/

/-- Detaching a chain's head and deleting it is taking it out. -/
theorem detach_eq (hwf : t.chains.WellFormed) {i : Nat} {k : ArenaKey} {n : Node V}
    {ys : List (Element V)} (hrow : t.chains.row i = ⟨k, n.value, n.hash⟩ :: ys)
    (hn : t.chains.nodes.get? k = some n) (w : W) :
    (do
      Op.change fun t => ((), { t with chains := t.chains.setLink (.head i) n.next })
      deleteNode env k : Op W V (Option V)) ⟨t.fencedBy f, w⟩
      = returnUnit env n.value ⟨(t.without k).fencedBy f, w⟩ := by
  have hplace : t.chains.placeOf? k = some (.head i) :=
    hwf.placeOf?_eq (e := ⟨k, n.value, n.hash⟩) (show _ = [] ++ _ :: ys from hrow)
  have hnext : t.chains.linkAt (.after k) = n.next := by rw [Chains.linkAt, hn]; rfl
  have hdelete : (t.chains.setLink (.head i) n.next).delete k
      = (some n.value, t.chains.without k) := by
    rw [← hnext]
    refine Prod.ext ?_ ?_
    · rw [Chains.delete_fst, Chains.element?_setLink,
        Chains.element?_eq_some.2 ⟨n, hn, rfl⟩]
      rfl
    · rw [Chains.without, hplace]
      rfl
  have hdelete' : ((t.fencedBy f).chains.setLink (.head i) n.next).delete k
      = (some n.value, t.chains.without k) := hdelete
  show (Op.change _ >>= fun _ => Op.change _ >>= _) _ = _
  rw [Op.run_change_bind, Op.run_change_bind]
  simp only [hdelete']
  rfl

/-- Clearing a chain is taking its elements out. The induction is on its cells: the first of them
is the head, and taking out a head changes none of the others. -/
theorem clearChain_eq {i : Nat} {cells : List (Cell V)} (hwf : t.chains.WellFormed)
    (hrow : t.chains.row i = cells.map .ofCell)
    (hcells : ∀ cell ∈ cells, t.chains.nodes.get? cell.1 = some cell.2) (w : W) :
    clearChain env i cells ⟨t.fencedBy f, w⟩
      = takeOut env (cells.map .ofCell) ⟨t.fencedBy f, w⟩ := by
  induction cells generalizing t w with
  | nil => rfl
  | cons cell cells ih =>
      obtain ⟨k, n⟩ := cell
      rw [List.map_cons] at hrow
      have hn : t.chains.nodes.get? k = some n := hcells _ (List.mem_cons_self ..)
      have hnodup : (Chains.keysOf (⟨k, n.value, n.hash⟩ :: cells.map Element.ofCell)).Nodup := by
        have hnodup := hwf.nodup i
        rw [hrow] at hnodup
        exact hnodup
      have hrow' : (t.without k).chains.row i = cells.map .ofCell := by
        rw [row_without hwf, hrow]
        rw [← List.nil_append (_ :: _)] at hnodup ⊢
        exact Chains.filter_key_ne hnodup
      have hcells' : ∀ cell ∈ cells, (t.without k).chains.nodes.get? cell.1 = some cell.2 := by
        intro cell hcell
        have hne : cell.1 ≠ k := by
          rintro rfl
          refine (List.nodup_cons.1 hnodup).1 (List.mem_map.2 ⟨.ofCell cell, ?_, rfl⟩)
          exact List.mem_map_of_mem hcell
        rw [← hcells cell (List.mem_cons_of_mem _ hcell)]
        exact hwf.get?_without_head hrow hne
      rw [clearChain, List.map_cons, takeOut, ← bind_assoc, ← bind_assoc,
        Op.run_bind_congr (Op.run_bind_congr (detach_eq hwf hrow hn w)), Op.run_change_bind]
      exact (leaves_giveUp env n.value _).bind_congr fun _ w =>
        ih (wellFormed_without hwf _) hrow' hcells' w

/-- Clearing buckets is taking their elements out. The induction is on the buckets to go: no other
chain shares a node with the one that is cleared first. -/
theorem clearBuckets_eq (hwf : t.chains.WellFormed) {is : List Nat} (hnodup : is.Nodup) (w : W) :
    clearBuckets env is ⟨t.fencedBy f, w⟩
      = takeOut env (is.flatMap t.chains.row) ⟨t.fencedBy f, w⟩ := by
  induction is generalizing t w with
  | nil => rfl
  | cons i is ih =>
      obtain ⟨hi, hnodup⟩ := List.nodup_cons.1 hnodup
      have hchain : clearChain env i (t.chains.chain i) ⟨t.fencedBy f, w⟩
          = takeOut env (t.chains.row i) ⟨t.fencedBy f, w⟩ :=
        clearChain_eq hwf rfl (fun cell hcell => Chains.get?_of_mem_follow hcell) w
      have hother : ∀ j ∈ is, (t.withoutAll (Chains.keysOf (t.chains.row i))).chains.row j
          = t.chains.row j := by
        intro j hj
        have hij : j ≠ i := fun heq => hi (heq ▸ hj)
        refine (congrFun (hwf.withoutAll _).row_eq j).trans (List.filter_eq_self.2 fun e he => ?_)
        simpa using hwf.not_mem_of_ne hij he
      have hrest := fun w => ih (t := t.withoutAll (Chains.keysOf (t.chains.row i)))
        (hwf.withoutAll _).wellFormed hnodup w
      rw [List.flatMap_congr hother] at hrest
      rw [clearBuckets, Op.run_read_bind]
      show (clearChain env i (t.chains.chain i) >>= fun _ => clearBuckets env is)
        ⟨t.fencedBy f, w⟩ = _
      rw [Op.run_bind_congr hchain, List.flatMap_cons, takeOut_append]
      have hspec := takeOut_spec (f := f) env (t.chains.row i) t w
      cases hrun : takeOut env (t.chains.row i) ⟨t.fencedBy f, w⟩ with
      | ok u s =>
          rw [hrun] at hspec
          obtain ⟨table, w'⟩ := s
          obtain rfl : table = _ := hspec
          rw [Op.run_bind_ok hrun, Op.run_bind_ok hrun]
          exact hrest w'
      | error p s => rw [Op.run_bind_error hrun, Op.run_bind_error hrun]

theorem clearBuckets_range (hwf : t.chains.WellFormed) (w : W) :
    clearBuckets env (List.range t.bucketCount) ⟨t.fencedBy f, w⟩
      = takeOut env t.chains.elements ⟨t.fencedBy f, w⟩ := by
  rw [Chains.elements_eq]
  exact clearBuckets_eq hwf List.nodup_range w

theorem keeps_clear (henv : C.Obeyed env) (hunlinks : C.Unlinks) :
    C.Keeps none 0 t (clear env)
      (still (t.withoutAll (Chains.keysOf t.chains.elements)) fun _ => True) := by
  unfold clear
  refine Keeps.bindRead (Keeps.bindWorld (Uses.notice henv _) fun _ d hd => ?_)
  obtain rfl := hd
  refine Keeps.fenced ?_
  intro w hinv hwf
  show C.Ends _ _ (clearBuckets env (List.range t.bucketCount) ⟨t.fencedBy (some .clear), w⟩)
  rw [clearBuckets_range hwf w]
  exact keeps_takeOut henv hunlinks (fun e he => hwf.mem_elements_iff.1 he) hwf.nodup_elements w
    hinv hwf

end Table

end SeparateChaining
