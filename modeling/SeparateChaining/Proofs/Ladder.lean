import Mathlib.Algebra.GroupWithZero.Nat
import SeparateChaining.Ladder
import SeparateChaining.Storage

/-!
# The rungs of the ladder

Bisection finds the end of an initial segment whether or not there is
one: it ends at an index before which `below` holds and at which it
fails, as far as there are such entries (`partitionIndex_spec`). So
`fit n` reaches `n` unless `n` lies above the ladder. What the other
bisection finds is an entry that equals what is sought
(`order_of_matchIndex?`), so `isRung` decides membership.

With both, `fit` is the rounding up to a rung: it is monotone, leaves
the rungs and nothing else where they are, and a rung is not below
`fit n` exactly if it is not below `n` (`fit_rounds`).
-/

namespace SeparateChaining

/-- Where bisection ends, the entry before holds and the entry there fails. The induction is on the
interval: its bounds are such ends, or those of the search. -/
theorem partitionIndex_spec (below : Nat → Bool) {lo hi : Nat} (h : lo ≤ hi) :
    lo ≤ partitionIndex below lo hi ∧ partitionIndex below lo hi ≤ hi
      ∧ (partitionIndex below lo hi < hi → below (partitionIndex below lo hi) = false)
      ∧ (lo < partitionIndex below lo hi → below (partitionIndex below lo hi - 1) = true) := by
  fun_induction partitionIndex below lo hi with
  | case1 lo hi hlt mid hmid ih =>
      obtain ⟨hle, hhi, hfails, hholds⟩ := ih (by omega)
      refine ⟨by omega, hhi, hfails, fun _ => ?_⟩
      by_cases heq : mid + 1 < partitionIndex below (mid + 1) hi
      · exact hholds heq
      · rw [show partitionIndex below (mid + 1) hi - 1 = mid by omega]
        exact hmid
  | case2 lo hi hlt mid hmid ih =>
      obtain ⟨hle, hhi, hfails, hholds⟩ := ih (by omega)
      refine ⟨hle, by omega, fun _ => ?_, hholds⟩
      by_cases heq : partitionIndex below lo mid < mid
      · exact hfails heq
      · rw [show partitionIndex below lo mid = mid by omega]
        simpa using hmid
  | case3 lo hi hlt =>
    exact ⟨Nat.le_refl _, h, fun hlo => absurd hlo hlt, fun hlo => absurd hlo (by omega)⟩

/-- An index that is found is one of those searched, and the entry there is the one sought. -/
theorem order_of_matchIndex? {order : Nat → Ordering} {lo hi i : Nat}
    (h : matchIndex? order lo hi = some i) : i < hi ∧ order i = .eq := by
  fun_induction matchIndex? order lo hi with
  | case1 lo hi hlt mid hmid =>
      obtain rfl := Option.some.inj h
      exact ⟨by omega, hmid⟩
  | case2 lo hi hlt mid hmid ih => exact ih h
  | case3 lo hi hlt mid hmid ih =>
      obtain ⟨hi', hfound⟩ := ih h
      exact ⟨by omega, hfound⟩
  | case4 => cases h

namespace Ladder

theorem bounds_of_mem {p : Nat} (h : p ∈ rungs) : 0 < p ∧ p ≤ top := by
  have hall : ∀ p ∈ rungs.toList, 0 < p ∧ p ≤ top := by decide
  exact hall p (by simpa using h)

theorem fit_mem (n : Nat) : fit n ∈ rungs := by
  unfold fit
  split
  · exact Array.mem_of_getElem? (by assumption)
  · decide +kernel

theorem bounds_fit (n : Nat) : 0 < fit n ∧ fit n ≤ top := bounds_of_mem (fit_mem n)

/-- The other bisection, which looks for a rung itself, finds every one. -/
theorem isRung_of_mem {p : Nat} (h : p ∈ rungs) : isRung p = true := by
  have hall : ∀ p ∈ rungs.toList, isRung p = true := by decide +kernel
  exact hall p (by simpa using h)

theorem rung_eq {i : Nat} (hi : i < rungs.size) : rung i = rungs[i] := by
  rw [rung, Array.getD_eq_getD_getElem?, Array.getElem?_eq_getElem hi, Option.getD_some]

theorem isRung_iff_mem {n : Nat} : isRung n = true ↔ n ∈ rungs := by
  refine ⟨fun h => ?_, isRung_of_mem⟩
  obtain ⟨i, hfound⟩ := Option.isSome_iff_exists.1 h
  obtain ⟨hi, heq⟩ := order_of_matchIndex? hfound
  rw [← Nat.compare_eq_eq.1 heq, rung_eq hi]
  exact Array.getElem_mem hi

theorem le_fit_or (n : Nat) : n ≤ fit n ∨ fit n = top := by
  obtain ⟨-, -, hfails, -⟩ :=
    partitionIndex_spec (fun i => rung i < n) (Nat.zero_le rungs.size)
  unfold fit
  split
  · rename_i p hp
    obtain ⟨hlt, -⟩ := Array.getElem?_eq_some_iff.1 hp
    have hreached := hfails hlt
    rw [decide_eq_false_iff_not, Nat.not_lt, rung, Array.getD_eq_getD_getElem?, hp] at hreached
    exact Or.inl hreached
  · exact Or.inr rfl

theorem rung_le_rung {i j : Nat} (hij : i ≤ j) (hj : j < rungs.size) : rung i ≤ rung j := by
  have hall : ∀ j < rungs.size, ∀ i ≤ j, rung i ≤ rung j := by decide +kernel
  exact hall j hj i hij

/-- `fit n` is the least rung that reaches `n`. -/
theorem fit_le_of_le {n p : Nat} (hp : p ∈ rungs) (h : n ≤ p) : fit n ≤ p := by
  obtain ⟨-, hsize, -, hholds⟩ :=
    partitionIndex_spec (fun i => rung i < n) (Nat.zero_le rungs.size)
  generalize hk : partitionIndex (fun i => rung i < n) 0 rungs.size = k at hsize hholds
  obtain ⟨j, hj, rfl⟩ := Array.mem_iff_getElem.1 hp
  -- the rungs before the one that fits are below `n`, so `p` is not one of them
  have hkj : k ≤ j := by
    refine Nat.le_of_not_lt ?_
    intro hlt
    have hbelow : rung (k - 1) < n := of_decide_eq_true (hholds (by omega))
    have hle : rung j ≤ rung (k - 1) := rung_le_rung (by omega) (by omega)
    rw [rung_eq hj] at hle
    omega
  have hlt : k < rungs.size := Nat.lt_of_le_of_lt hkj hj
  have hfit : fit n = rung k := by
    rw [fit, hk, rung_eq hlt, Array.getElem?_eq_getElem hlt]
  rw [hfit, ← rung_eq hj]
  exact rung_le_rung hkj hj

/-- A bucket count that falls short of `n`, and of the ladder, can be raised for `n`. -/
theorem lt_fit_iff {b n : Nat} (h : b < n) : b < fit n ↔ b < top := by
  constructor
  · exact fun hfit => Nat.lt_of_lt_of_le hfit (bounds_fit n).2
  · intro hb
    rcases le_fit_or n with hle | htop
    · exact Nat.lt_of_lt_of_le h hle
    · rwa [htop]

/-! ## Rounding up to a rung -/

theorem le_fit {n : Nat} (h : n ≤ top) : n ≤ fit n := by
  rcases le_fit_or n with hle | htop
  · exact hle
  · rw [htop]
    exact h

theorem fit_eq_top {n : Nat} (h : top < n) : fit n = top := by
  rcases le_fit_or n with hle | htop
  · exact absurd (Nat.le_trans hle (bounds_fit n).2) (Nat.not_le_of_lt h)
  · exact htop

theorem fit_of_mem {p : Nat} (hp : p ∈ rungs) : fit p = p :=
  Nat.le_antisymm (fit_le_of_le hp (Nat.le_refl p)) (le_fit (bounds_of_mem hp).2)

theorem fit_le_iff {n p : Nat} (hp : p ∈ rungs) (h : n ≤ top) : fit n ≤ p ↔ n ≤ p :=
  ⟨Nat.le_trans (le_fit h), fit_le_of_le hp⟩

theorem fit_mono {m n : Nat} (h : m ≤ n) : fit m ≤ fit n := by
  rcases Nat.lt_or_ge top n with hn | hn
  · rw [fit_eq_top hn]
    exact (bounds_fit m).2
  · exact fit_le_of_le (fit_mem n) (Nat.le_trans h (le_fit hn))

/-- The bucket count for `n` elements is the least rung that reaches `n`, with none between, or the
top rung if `n` lies above the ladder. It grows with `n`, rounding twice is rounding once, and
within the ladder it compares with a rung as `n` does. The other search, for `n` itself, succeeds
for the numbers that the rounding leaves where they are. -/
theorem fit_rounds (n : Nat) :
    fit n ∈ rungs
    ∧ (n ≤ top → n ≤ fit n ∧ ∀ p ∈ rungs, ¬ (n ≤ p ∧ p < fit n))
    ∧ (top < n → fit n = top)
    ∧ (∀ m ≤ n, fit m ≤ fit n)
    ∧ fit (fit n) = fit n
    ∧ (n ≤ top → ∀ p ∈ rungs, fit n ≤ p ↔ n ≤ p)
    ∧ (isRung n = true ↔ fit n = n) := by
  refine ⟨fit_mem n, fun hn => ⟨le_fit hn, ?_⟩, fit_eq_top, fun m hm => fit_mono hm,
    fit_of_mem (fit_mem n), fun hn p hp => fit_le_iff hp hn, ?_⟩
  · rintro p hp ⟨hreach, hless⟩
    exact absurd (fit_le_of_le hp hreach) (Nat.not_le_of_lt hless)
  · rw [isRung_iff_mem]
    constructor
    · exact fit_of_mem
    · intro hfit
      rw [← hfit]
      exact fit_mem n

theorem linkBytes_le {n : Nat} (h : n ≤ top) : n * linkBytes ≤ maxArrayBytes := by
  have htop : top * linkBytes ≤ maxArrayBytes := by decide
  exact Nat.le_trans (Nat.mul_le_mul_right _ h) htop

end Ladder

end SeparateChaining
