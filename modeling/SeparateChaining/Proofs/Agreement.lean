import SeparateChaining.Proofs.Keyed
import SeparateChaining.Proofs.Positions

/-!
# All ways of visiting a table agree

The chains of all buckets one after the other, an iterator over the
table, and a cursor moved on from the first element to the end meet the
same elements in the same order (`Agreed`), whatever policies have made
the chains what they are.

An iterator announces how many elements are still to come. The one over
the table starts from the number of its nodes, the one over a run from
the number of matches counted. Both are right at any time
(`Iterator.Yields`), the second under one condition: comparing a value
with a key must give the same answer each time. Else the node that
matched when the run was sought may differ when its extent is sought,
and the iterator yields an element that it has not announced.
-/

namespace SeparateChaining

variable {V K W : Type}

/-! ## Iterators -/

namespace Iterator

/-- The iterator after so many attempts to advance it. -/
def after (it : Iterator V) : Nat → Iterator V
  | 0 => it
  | n + 1 => it.next.2.after n

/-- Advanced again and again, the iterator yields `vs` and then nothing for ever. At any time a copy
of it yields what is still to come, and that is as much as it announces. -/
structure Yields (it : Iterator V) (vs : List V) : Prop where
  next : ∀ n, (it.after n).next.1 = vs[n]?
  copy : ∀ n, (it.after n).toList = vs.drop n
  remaining : ∀ n, (it.after n).remaining = (vs.drop n).length
  ended : ∀ {m n}, (it.after m).next.1 = none → m ≤ n → (it.after n).next.1 = none

end Iterator

namespace Chains

variable {c : Chains V} {rows : Nat → List (Element V)} {xs ms zs : List (Element V)}

/-- An iterator that stands before `ms` and announces them does so with the rest of them when it was
advanced. The induction is on the attempts: each takes off one element, while there is one. -/
theorem Arranged.after_eq (h : c.Arranged rows) (hsplit : c.elements = xs ++ (ms ++ zs)) (n : Nat) :
    (⟨c, linkTo (ms ++ zs), linkTo zs, ms.length⟩ : Iterator V).after n
      = ⟨c, linkTo (ms.drop n ++ zs), linkTo zs, (ms.drop n).length⟩ := by
  induction n generalizing xs ms with
  | zero => rfl
  | succ n ih =>
      cases ms with
      | nil =>
          have hstays : (⟨c, linkTo ([] ++ zs), linkTo zs, 0⟩ : Iterator V).next.2
              = ⟨c, linkTo ([] ++ zs), linkTo zs, 0⟩ := by
            rw [Iterator.next, List.nil_append, next?_of_stop]
          have hrest := ih hsplit
          rw [Iterator.after, List.length_nil, hstays]
          rwa [List.drop_nil] at hrest ⊢
      | cons e ms =>
          have hsplit' : c.elements = (xs ++ [e]) ++ (ms ++ zs) := by
            rw [hsplit]
            simp
          rw [Iterator.after, Iterator.next, h.next?_eq hsplit, List.drop_succ_cons]
          exact ih hsplit'

theorem Arranged.yields (h : c.Arranged rows) (hsplit : c.elements = xs ++ (ms ++ zs)) :
    (⟨c, linkTo (ms ++ zs), linkTo zs, ms.length⟩ : Iterator V).Yields (ms.map (·.value)) := by
  have hsplit' : ∀ n, c.elements = (xs ++ ms.take n) ++ (ms.drop n ++ zs) := by
    intro n
    rw [List.append_assoc, ← List.append_assoc (ms.take n), List.take_append_drop]
    exact hsplit
  have hnext : ∀ n, ((⟨c, linkTo (ms ++ zs), linkTo zs, ms.length⟩ : Iterator V).after n).next.1
      = (ms.map (·.value))[n]? := by
    intro n
    have hn := hsplit' n
    rw [h.after_eq hsplit, List.getElem?_map, ← List.head?_drop, Iterator.next]
    cases hrest : ms.drop n with
    | nil =>
        rw [List.nil_append, next?_of_stop]
        rfl
    | cons e es =>
        rw [hrest] at hn
        rw [h.next?_eq hn]
        rfl
  refine ⟨hnext, fun n => ?_, fun n => ?_, fun {m n} hm hle => ?_⟩
  · rw [h.after_eq hsplit, h.toList_eq (hsplit' n), List.map_drop]
  · rw [h.after_eq hsplit, ← List.map_drop, List.length_map]
  · rw [hnext, List.getElem?_eq_none_iff] at hm ⊢
    exact hm.trans hle

end Chains

/-! ## All elements -/

namespace Table

variable {t : Table V}

/-- The chains, the iterator and the cursors agree on the elements and on their order. -/
structure Agreed (t : Table V) : Prop where
  chains : t.values
    = (List.range t.bucketCount).flatMap fun i => (t.chains.chain i).map (·.2.value)
  iterator : t.iterator.toList = t.values
  walk : t.walk t.firstCursor t.endCursor = .ok t.values
  length : t.values.length = t.size
  once : (t.chains.traversal.map (·.1)).Nodup
  live : ∀ k n, (k, n) ∈ t.chains.traversal ↔ t.chains.nodes.get? k = some n
  steps : ∀ n ≤ t.size, ∃ c, t.advance n t.firstCursor = .ok c
    ∧ (c = t.endCursor ↔ n = t.size) ∧ ∀ v, t.values[n]? = some v → t.get c = .ok v
  onward : ∀ c cell, t.cell c = .ok cell → ∃ i c', t.chains.traversal[i]? = some cell
    ∧ t.next c = .ok c' ∧ t.walk c' t.endCursor = .ok (t.values.drop (i + 1))
    ∧ t.advance (t.size - i) c = .ok t.endCursor

theorem length_values (hwf : t.chains.WellFormed) : t.values.length = t.size := by
  rw [values, List.length_map, length_traversal hwf]

theorem agreed (hwf : t.chains.WellFormed) : t.Agreed where
  chains := by rw [values, Chains.traversal, List.map_flatMap]; rfl
  iterator := hwf.iterator_eq
  walk := hwf.walk_all
  length := length_values hwf
  once := by
    have hnodup := hwf.nodup_elements
    rwa [Chains.elements, Chains.keysOf, List.map_map] at hnodup
  live k n := hwf.mem_traversal
  steps n hn := by
    refine ⟨t.cursorAt n, ?_, ?_, fun v hv => get_cursorAt hwf hv⟩
    · rw [← cursorAt_zero hwf, advance_cursorAt hwf (by rwa [Nat.zero_add]), Nat.zero_add]
    · constructor
      · intro hend
        have hisEnd : (t.cursorAt n).isEnd = true := by
          rw [hend]
          rfl
        exact Nat.le_antisymm hn ((isEnd_cursorAt hwf n).1 hisEnd)
      · rintro rfl
        exact cursorAt_of_le hwf (Nat.le_refl _)
  onward c cell hcell := by
    obtain ⟨i, hi, rfl, hat⟩ := exists_cursorAt hwf hcell
    refine ⟨i, _, hat, next_cursorAt hwf hi, walk_cursorAt hwf (i + 1), ?_⟩
    rw [advance_cursorAt hwf (by omega), cursorAt_of_le hwf (by omega)]

theorem yields_iterator (hwf : t.chains.WellFormed) : t.iterator.Yields t.values := by
  have hyields := hwf.yields t.chains.elements_split_nil
  rw [List.append_nil, ← hwf.first_eq, hwf.length_elements, Chains.map_value_elements] at hyields
  exact hyields

end Table

/-! ## The elements of a key -/

/-- Whenever the key taken out of a value is compared with another, the answer is the same. -/
def Environment.ComparesAs (env : Environment V K W) (same : V → K → Bool) : Prop :=
  ∀ {seen v w k w'}, env.extract seen v w = .ok k w' →
    ∀ {seen' q u b u'}, env.keyEq seen' k q u = .ok b u' → b = same v q

theorem Policies.comparesAs_environment (p : Policies V K) (sup : Supply W) :
    (p.environment sup).ComparesAs fun v q => p.hasKey q v := by
  intro seen v w k w' hk seen' q u b u' hb
  cases hk
  cases hb
  rfl

namespace Contract

variable {env : Environment V K W} {I : Table V → Prop}

/-- A property of the table is kept, and whatever is said of keys, foreign code says somewhere. -/
def voiced (env : Environment V K W) (I : Table V → Prop) : Contract V K W :=
  { (wild env.Raises I : Contract V K W) with
    key := fun v k => ∃ seen w w', env.extract seen v w = .ok k w'
    eq := fun a b same => ∃ seen w w', env.keyEq seen a b w = .ok same w' }

theorem obeyed_voiced (env : Environment V K W) (I : Table V → Prop) :
    (voiced env I).Obeyed env where
  extract _ seen _ w h := settles_wild (K := K) (d := 0) (fun _ w' hr => ⟨seen, w, w', hr⟩)
    (fun _ _ hr => Or.inl (.extract hr)) h
  hash := (obeyed_wild_of env (fun _ hp => hp) I).hash
  keyEq _ seen _ _ w h := settles_wild (K := K) (d := 0) (fun _ w' hr => ⟨seen, w, w', hr⟩)
    (fun _ _ hr => Or.inl (.keyEq hr)) h
  dispose := (obeyed_wild_of env (fun _ hp => hp) I).dispose
  unwinding := (obeyed_wild_of env (fun _ hp => hp) I).unwinding
  report := (obeyed_wild_of env (fun _ hp => hp) I).report
  reserve := (obeyed_wild_of env (fun _ hp => hp) I).reserve
  unreserved := (obeyed_wild_of env (fun _ hp => hp) I).unreserved
  allocate := (obeyed_wild_of env (fun _ hp => hp) I).allocate
  deallocate := (obeyed_wild_of env (fun _ hp => hp) I).deallocate

theorem not_differs_of_matches {same : V → K → Bool} (henv : env.ComparesAs same) {hash : UInt64}
    {q : K} {e : Element V} (hmatch : (voiced env I).Matches hash q e) :
    ¬(voiced env I).Differs hash q e := by
  intro hdiffer
  obtain ⟨hhash, k, ⟨_, _, _, hk⟩, _, _, _, heq⟩ := hmatch
  obtain ⟨k', ⟨_, _, _, hk'⟩, _, _, _, heq'⟩ := hdiffer hhash
  cases (henv hk heq).trans (henv hk' heq').symm

end Contract

namespace Table

variable {env : Environment V K W} {t : Table V}

open Contract

/-- The iterator over a run that was found announces the elements of the run. -/
theorem yields_of_isRun {C : Contract V K W} (hwf : t.chains.WellFormed) {hash : UInt64} {q : K}
    {r : Option Run} (h : C.IsRun hash q (t.homeRow hash) r)
    (hclear : ∀ e, C.Matches hash q e → ¬C.Differs hash q e) :
    ∃ xs ms zs, t.chains.elements = xs ++ (ms ++ zs)
      ∧ (t.runIterator r).Yields (ms.map (·.value)) := by
  cases r with
  | none =>
      have hsplit : t.chains.elements = t.chains.elements ++ ([] ++ []) := by simp
      exact ⟨_, [], [], hsplit, hwf.yields hsplit⟩
  | some r =>
      obtain ⟨xs, ms, ys, hspans⟩ := h
      have hne := ne_nil_of_spans hspans fun e _ => hclear e
      have helements := hwf.elements_split (hwf.home_lt hash)
      rw [show t.chains.row _ = _ from hspans.split] at helements
      have hsplit : t.chains.elements
          = ((List.range (t.chains.buckets.home hash)).flatMap t.chains.row ++ xs)
            ++ (ms ++ (ys ++ t.chains.elementsFrom t.chains.row
              (t.chains.buckets.home hash + 1))) := by
        rw [helements]
        simp only [List.append_assoc]
      obtain ⟨hstart, hstop⟩ := links_of_spans hwf hspans hne hsplit
      refine ⟨_, ms, _, hsplit, ?_⟩
      rw [runIterator, hstart, hstop, hspans.count]
      exact hwf.yields hsplit

/-- What the iterator over the elements of a key yields stands side by side in the traversal, if
comparing is determined. The search for it panics only if foreign code does. -/
theorem yields_iteratorOf (ht : t.Sound) {same : V → K → Bool} (henv : env.ComparesAs same) (q : K)
    (w : W) : match iteratorOf env q ⟨t, w⟩ with
      | .ok it s => s.table = t ∧ ∃ xs vs ys, t.values = xs ++ (vs ++ ys) ∧ it.Yields vs
      | .error p s => s.table = t ∧ env.Raises p := by
  have hkeeps := keeps_iteratorOf (t := t) (obeyed_voiced env (· = t)) q
  cases hrun : iteratorOf env q ⟨t, w⟩ with
  | ok it s =>
      obtain ⟨d, t', htable, -, -, -, rfl, hash, r, -, hr, rfl⟩ :=
        hkeeps.of_run_ok ht.fence ht.wellFormed rfl hrun
      obtain ⟨xs, ms, zs, hsplit, hyields⟩ :=
        yields_of_isRun ht.wellFormed hr fun e => not_differs_of_matches henv
      refine ⟨htable.trans (fencedBy_eq ht.fence), xs.map (·.value), _, zs.map (·.value), ?_,
        hyields⟩
      rw [values, ← Chains.map_value_elements, hsplit, List.map_append, List.map_append]
  | error p s =>
      obtain ⟨t', htable, rfl, -, hpanic⟩ :=
        hkeeps.of_run_error ht.fence ht.wellFormed rfl hrun
      exact ⟨htable.trans (fencedBy_eq ht.fence), hpanic⟩

end Table

/-! ## Runs -/

namespace Store

/-- After any run under any policies, whatever values were replaced, all ways of visiting a table
agree, and its iterators announce at any time what they still yield: that over all elements, and
that over the elements of a key if comparing is determined. -/
theorem agreed_after (past : Environment V K W) (w₀ : W) (acts : List (Action V K)) {i : Nat}
    {t : Table V} (ht : ((ofWorld w₀ : Store V W).after past acts).table? i = some t) :
    t.Agreed ∧ t.iterator.Yields t.values
      ∧ ∀ (env : Environment V K W) (same : V → K → Bool), env.ComparesAs same →
        ∀ q w, match Table.iteratorOf env q ⟨t, w⟩ with
          | .ok it s => s.table = t ∧ ∃ xs vs ys, t.values = xs ++ (vs ++ ys) ∧ it.Yields vs
          | .error p s => s.table = t ∧ env.Raises p := by
  have hsound := (((sound_ofWorld w₀).after past acts).table i t ht).1
  exact ⟨Table.agreed hsound.wellFormed, Table.yields_iterator hsound.wellFormed,
    fun env same henv q w => Table.yields_iteratorOf hsound henv q w⟩

/-- A value is replaced by one with another key: an iterator over that key takes it in, as the
comparison does. -/
theorem agreed_after_edit :
    ∃ (p : Policies Nat Nat) (env : Environment Nat Nat Unit) (t : Table Nat),
      p = ⟨(· / 10), fun _ => 7, (· == ·)⟩ ∧ env = p.environment (.unlimited 4096 8 8)
      ∧ ((ofWorld ()).after env [.create 0, .on 0 (.insertAny 10), .on 0 (.insertAny 20),
        .on 0 (.insertAny 11), .on 0 (.modify ⟨some ⟨1, 0⟩, 0, 0⟩ fun _ => 15)]).table? 0 = some t
      ∧ t.Agreed ∧ t.iterator.Yields [15, 10, 11]
      ∧ ∃ it s, Table.iteratorOf env 1 ⟨t, ()⟩ = .ok it s ∧ it.Yields [15, 10, 11] := by
  generalize hp : (Policies.mk (· / 10) (fun _ => 7) (· == ·) : Policies Nat Nat) = p
  generalize henv : p.environment (.unlimited 4096 8 8 : Supply Unit) = env
  have hedited : (((ofWorld ()).after env [.create 0, .on 0 (.insertAny 10),
      .on 0 (.insertAny 20), .on 0 (.insertAny 11),
      .on 0 (.modify ⟨some ⟨1, 0⟩, 0, 0⟩ fun _ => 15)]).table? 0).map (fun t => (t.values,
        match Table.iteratorOf env 1 ⟨t, ()⟩ with
        | .ok it _ => some it.toList
        | .error _ _ => none)) = some ([15, 10, 11], some [15, 10, 11]) := by
    subst henv hp
    decide +kernel
  obtain ⟨t, ht, hcomputed⟩ := Option.map_eq_some_iff.1 hedited
  obtain ⟨hvalues, hlist⟩ := Prod.mk.inj hcomputed
  obtain ⟨hagreed, hyields, hrun⟩ := agreed_after env () _ ht
  have hsame : env.ComparesAs fun v q => p.hasKey q v := henv ▸ p.comparesAs_environment _
  have hiterator := hrun env _ hsame 1 ()
  cases hit : Table.iteratorOf env 1 ⟨t, ()⟩ with
  | error q s =>
      simp only [hit] at hlist
      cases hlist
  | ok it s =>
      simp only [hit] at hlist hiterator
      obtain ⟨-, xs, vs, ys, -, hits⟩ := hiterator
      have hvs : [15, 10, 11] = vs := (Option.some.inj hlist).symm.trans (hits.copy 0)
      exact ⟨p, env, t, rfl, henv.symm, ht, hagreed, hvalues ▸ hyields, it, s, hit, hvs ▸ hits⟩

end Store

end SeparateChaining
