import SeparateChaining.Proofs.Chains.Inspection
import SeparateChaining.Proofs.Verdict

/-!
# The check of a table is exact

`Promises` says what a table promises to policies, in words of the
nodes that unbounded walks along its chains visit. It asks nothing of
the table: the chains may run in a circle or into one another, and the
policies may be lawless, with keys that are not even equal to
themselves. The check answers yes exactly if all promises are kept
(`check_exact`). It ends on every table, since it reads hashes and keys
off the chains only after it has found that the walks along them end.
-/

namespace SeparateChaining

/-! ## Positions of three entries -/

theorem triple_sublist_iff {α : Type} {as : List α} {x y z : α} :
    [x, y, z].Sublist as
      ↔ ∃ i j k : Nat, i < j ∧ j < k ∧ as[i]? = some x ∧ as[j]? = some y ∧ as[k]? = some z := by
  constructor
  · intro h
    obtain ⟨is, heq, hlt⟩ := List.sublist_eq_map_getElem h
    obtain ⟨i, j, k, rfl⟩ : ∃ i j k, is = [i, j, k] := by
      rw [← List.length_eq_three, ← List.length_map (fun x => as[x]), ← heq]
      rfl
    simp only [List.map_cons, List.map_nil, List.cons.injEq, and_true] at heq
    obtain ⟨rfl, rfl, rfl⟩ := heq
    simp only [List.pairwise_cons, List.mem_cons, List.not_mem_nil, or_false, forall_eq_or_imp,
      forall_eq] at hlt
    exact ⟨i, j, k, hlt.1.1, hlt.2.1, by simp, by simp, by simp⟩
  · rintro ⟨i, j, k, hij, hjk, hx, hy, hz⟩
    obtain ⟨hi, rfl⟩ := List.getElem?_eq_some_iff.1 hx
    obtain ⟨hj, rfl⟩ := List.getElem?_eq_some_iff.1 hy
    obtain ⟨hk, rfl⟩ := List.getElem?_eq_some_iff.1 hz
    have hlt : [(⟨i, hi⟩ : Fin as.length), ⟨j, hj⟩, ⟨k, hk⟩].Pairwise (· < ·) := by
      simp [hij, hjk, Nat.lt_trans hij hjk]
    exact List.map_getElem_sublist hlt

/-- No key is equal to any, not even to itself. -/
def Policies.lawless : Policies Nat Nat where
  extract v := v
  hash k := k.toUInt64
  keyEq _ _ := false

namespace Table

variable {V K W : Type} {env : Environment V K W} {p : Policies V K} {t : Table V}

/-! ## The promises -/

/-- On no chain is there a value, behind it one with another key, and behind that one with the key
of the first. -/
def Unbroken (p : Policies V K) (t : Table V) : Prop :=
  ∀ (i a b c : Nat) (x y z : Cell V), a < b → b < c → t.chains.visit i a = some x →
    t.chains.visit i b = some y → t.chains.visit i c = some z →
    p.keyEq (p.extract x.2.value) (p.extract y.2.value) = false →
    p.keyEq (p.extract x.2.value) (p.extract z.2.value) = false

/-- What a table promises to policies. -/
structure Promises (p : Policies V K) (t : Table V) : Prop where
  rung : t.bucketCount ∈ Ladder.rungs
  room : t.size ≤ t.bucketCount
  visited : t.chains.VisitedOnce
  hashed : ∀ k n, t.chains.nodes.get? k = some n → n.hash = p.hash (p.extract n.value)
  unbroken : t.Unbroken p

/-- If equality is an equivalence, the promise says that between two elements of one key on a chain
there is none of another key. -/
theorem unbroken_iff_of_equivalence (h : Equivalence fun a b => p.keyEq a b = true) :
    t.Unbroken p ↔ ∀ (q : K) (i a b c : Nat) (x y z : Cell V), a < b → b < c →
      t.chains.visit i a = some x → t.chains.visit i b = some y → t.chains.visit i c = some z →
      p.hasKey q x.2.value = true → p.hasKey q z.2.value = true →
      p.hasKey q y.2.value = true := by
  constructor
  · intro hunbroken q i a b c x y z hab hbc hx hy hz hxq hzq
    have hxz : p.keyEq (p.extract x.2.value) (p.extract z.2.value) = true :=
      h.trans hxq (h.symm hzq)
    have hxy : p.keyEq (p.extract x.2.value) (p.extract y.2.value) = true := by
      refine Bool.eq_true_of_not_eq_false fun hdiffer => ?_
      rw [hunbroken i a b c x y z hab hbc hx hy hz hdiffer] at hxz
      cases hxz
    exact h.trans (h.symm hxy) hxq
  · intro htogether i a b c x y z hab hbc hx hy hz hdiffer
    refine Bool.eq_false_of_not_eq_true fun hxz => ?_
    have hyx := htogether _ i a b c x y z hab hbc hx hy hz (h.refl _) (h.symm hxz)
    rw [show p.keyEq (p.extract x.2.value) (p.extract y.2.value) = true from h.symm hyx] at hdiffer
    cases hdiffer

/-! ## What the check reads -/

theorem isSound_iff : t.isSound = true
    ↔ t.bucketCount ∈ Ladder.rungs ∧ t.size ≤ t.bucketCount ∧ t.chains.VisitedOnce := by
  rw [isSound, Bool.and_eq_true, Bool.and_eq_true, Ladder.isRung_iff_mem, decide_eq_true_iff,
    Chains.wellPlaced_iff, and_assoc]

/-- The chains list the live nodes, if each is visited once. -/
theorem forall_chain_iff (h : t.chains.VisitedOnce) {P : Cell V → Prop} :
    (∀ i < t.bucketCount, ∀ cell ∈ t.chains.chain i, P cell)
      ↔ ∀ k n, t.chains.nodes.get? k = some n → P (k, n) := by
  constructor
  · intro hP k n hn
    obtain ⟨⟨i, j⟩, hvisit, -⟩ := h.once k n hn
    have hj := (Chains.getElem?_chain (h.nodup_chain i) j).trans hvisit
    exact hP i (Chains.lt_of_visit hvisit) _ (List.mem_of_getElem? hj)
  · intro hP i _ cell hcell
    exact hP cell.1 cell.2 (Chains.get?_of_mem_follow hcell)

theorem forall_contiguous_iff (h : t.chains.VisitedOnce) :
    (∀ i < t.bucketCount, contiguous (fun u v => p.keyEq (p.extract u) (p.extract v))
        ((t.chains.chain i).map (·.2.value)) = true)
      ↔ t.Unbroken p := by
  have hread : ∀ i j, ((t.chains.chain i).map (·.2.value))[j]?
      = (t.chains.visit i j).map (·.2.value) := by
    intro i j
    rw [List.getElem?_map, Chains.getElem?_chain (h.nodup_chain i)]
  simp only [contiguous_iff, triple_sublist_iff, hread]
  constructor
  · intro hall i a b c x y z hab hbc hx hy hz
    refine hall i (Chains.lt_of_visit hx) _ _ _ ⟨a, b, c, hab, hbc, ?_, ?_, ?_⟩
    · rw [hx]; rfl
    · rw [hy]; rfl
    · rw [hz]; rfl
  · rintro hunbroken i - u v w ⟨a, b, c, hab, hbc, hu, hv, hw⟩
    obtain ⟨x, hx, rfl⟩ := Option.map_eq_some_iff.1 hu
    obtain ⟨y, hy, rfl⟩ := Option.map_eq_some_iff.1 hv
    obtain ⟨z, hz, rfl⟩ := Option.map_eq_some_iff.1 hw
    exact hunbroken i a b c x y z hab hbc hx hy hz

theorem keepsPromises_iff : t.keepsPromises p = true ↔ t.Promises p := by
  rw [keepsPromises, Bool.and_eq_true, Bool.and_eq_true, isSound_iff]
  simp only [List.all_eq_true, List.mem_range, decide_eq_true_eq]
  constructor
  · rintro ⟨⟨⟨hrung, hroom, hvisited⟩, hhashes⟩, hruns⟩
    refine ⟨hrung, hroom, hvisited, fun k n hn => ?_, (forall_contiguous_iff hvisited).1 hruns⟩
    exact ((forall_chain_iff hvisited).1 hhashes k n hn).symm
  · intro h
    refine ⟨⟨⟨h.rung, h.room, h.visited⟩, ?_⟩, (forall_contiguous_iff h.visited).2 h.unbroken⟩
    exact (forall_chain_iff h.visited).2 fun k n hn => (h.hashed k n hn).symm

/-! ## The check -/

/-- A node that links to itself. -/
def circularCell : Cell Nat := (⟨0, 0⟩, ⟨5, 5, some ⟨0, 0⟩⟩)

/-- The chain of bucket 5 runs in a circle. -/
def circle : Table Nat where
  chains.nodes := (Arena.empty.insert circularCell.2).2
  chains.buckets := (Buckets.replicate 53).setHead 5 (some circularCell.1)
  id := 0
  growths := 0
  fence := none

/-- Under any policies and on any table, the structural part of the check ends without a bound on
its walks, and where its verdict is yes the walks end that the other parts go along. A table whose
fence is down is left as it is and is told whether it keeps its promises, unless foreign code
panics. -/
theorem check_exact (henv : env.Speaks p) (t : Table V) :
    (∃ n, n ≤ t.size + t.bucketCount + 1
      ∧ t.chains.Ends t.chains.inspection n t.chains.wellPlaced)
    ∧ (t.isSound = true → ∀ i, t.chains.visit i t.size = none)
    ∧ (t.fence = none → ∃ verdict, (verdict = true ↔ t.Promises p)
      ∧ Op.Tells env t (check env) verdict
      ∧ ((∀ q, ¬ env.toCaller.Raises q) → ∀ w, ∃ w', check env ⟨t, w⟩ = .ok verdict ⟨t, w'⟩))
    ∧ (∀ running, t.fence = some running →
      ∀ w, check env ⟨t, w⟩ = .error (.reentrant .check running) ⟨t, w⟩)
    ∧ ((Equivalence fun a b => p.keyEq a b = true) →
      (t.Unbroken p ↔ ∀ (q : K) (i a b c : Nat) (x y z : Cell V), a < b → b < c →
        t.chains.visit i a = some x → t.chains.visit i b = some y → t.chains.visit i c = some z →
        p.hasKey q x.2.value = true → p.hasKey q z.2.value = true →
        p.hasKey q y.2.value = true)) := by
  refine ⟨t.chains.ends_inspection, fun hsound i => ?_, fun hfence => ?_, ?_,
    unbroken_iff_of_equivalence⟩
  · exact Chains.visit_size ((isSound_iff.1 hsound).2.2.nodup_chain i)
  · have htells := tells_check_of_speaks henv hfence
    refine ⟨_, keepsPromises_iff, htells, fun hcalm w => ?_⟩
    rcases htells w with hrun | ⟨q, -, -, hq⟩
    · exact hrun
    · exact absurd hq (hcalm q)
  · intro running hfence w
    rw [check, Op.fenced, hfence]

/-- A walk in a circle that never ends, under policies without laws. -/
theorem check_exact_circle :
    ∃ (env : Environment Nat Nat Unit) (t : Table Nat),
      env = Policies.lawless.environment (Supply.unlimited 0 8 8) ∧ t = circle
      ∧ env.Speaks .lawless
      ∧ (∀ j, t.chains.visit 5 j = some circularCell)
      ∧ (∃ n, n ≤ 55 ∧ t.chains.Ends t.chains.inspection n false)
      ∧ ¬t.Promises .lawless
      ∧ check env ⟨t, ()⟩ = .ok false ⟨t, ()⟩ := by
  have henv := Policies.lawless.speaks_environment (Supply.unlimited 0 8 8 : Supply Unit)
  obtain ⟨⟨n, hn, hends⟩, -, hanswer, -⟩ := check_exact henv circle
  obtain ⟨verdict, hverdict, -, hreturns⟩ := hanswer rfl
  have hvisit : ∀ j, circle.chains.visit 5 j = some circularCell := by
    intro j
    induction j with
    | zero => rfl
    | succ j ih => exact ih
  have hnot : ¬circle.chains.VisitedOnce := by
    intro h
    obtain ⟨q, -, honly⟩ := h.once circularCell.1 circularCell.2 rfl
    exact absurd ((honly (5, 0) (hvisit 0)).trans (honly (5, 1) (hvisit 1)).symm) (by decide)
  have hunplaced : circle.chains.wellPlaced = false :=
    Bool.eq_false_of_not_eq_true fun h => hnot (Chains.wellPlaced_iff.1 h)
  have hbroken : ¬circle.Promises .lawless := fun h => hnot h.visited
  rw [hunplaced] at hends
  obtain rfl : verdict = false := Bool.eq_false_of_not_eq_true fun h => hbroken (hverdict.1 h)
  obtain ⟨w', hrun⟩ := hreturns (Policies.lawless.caller_not_raises _) ()
  exact ⟨_, _, rfl, rfl, henv, hvisit, ⟨n, hn, hends⟩, hbroken, hrun⟩

end Table

end SeparateChaining
