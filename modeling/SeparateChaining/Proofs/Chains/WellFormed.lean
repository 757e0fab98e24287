import Mathlib.Algebra.GroupWithZero.Nat
import Mathlib.Data.List.Nodup
import SeparateChaining.Proofs.Chains.Segment

/-!
# Well-formed chains

`c.row i` lists the elements on the chain of bucket `i`. `Arranged c
rows` is the representation invariant, with the rows named: there is a
bucket, the chain of each bucket runs through live nodes to an empty
link and holds the elements of its row, every element is in the row of
its home bucket, and every live node is in some row. `WellFormed c` is
the invariant for the rows that `c` reads off itself.

An operation on chains is specified by the rows it leaves: from
`Arranged c rows` follows `Arranged c' rows'`. That determines what the
walks of `c'` read (`Arranged.row_eq`), and it carries everything the
invariant is used for: no two rows share a node, the number of nodes is
the sum of the lengths of the rows, and the traversal meets each live
node once.
-/

namespace SeparateChaining

/-! ## Heads -/

namespace Buckets

theorem head_setHead_self {b : Buckets} {i : Nat} (hi : i < b.size) (l : Link) :
    (b.setHead i l).head i = l := by
  have hlt : i < b.heads.size := hi
  simp [setHead, head, Array.getD_eq_getD_getElem?, hlt]

theorem head_setHead_ne {b : Buckets} {i j : Nat} (hij : j ≠ i) (l : Link) :
    (b.setHead i l).head j = b.head j := by
  simp [setHead, head, Array.getD_eq_getD_getElem?, Array.getElem?_setIfInBounds_ne (Ne.symm hij)]

theorem home_congr {a b : Buckets} (h : a.size = b.size) (hash : UInt64) :
    a.home hash = b.home hash := by
  rw [home, home, h]

@[simp] theorem home_setHead (b : Buckets) (i : Nat) (l : Link) (hash : UInt64) :
    (b.setHead i l).home hash = b.home hash :=
  home_congr (size_setHead ..) hash

theorem head_replicate (n j : Nat) : (replicate n).head j = none := by
  rw [head, replicate, Array.getD_eq_getD_getElem?, Array.getElem?_replicate]
  split <;> rfl

theorem toList_heads (b : Buckets) : b.heads.toList = (List.range b.size).map b.head := by
  refine List.ext_getElem (by simp [size]) ?_
  intro i hi _
  have hlt : i < b.heads.size := by simpa using hi
  simp [head, Array.getD, hlt]

end Buckets

namespace Chains

variable {V : Type} {c : Chains V} {rows : Nat → List (Element V)}

/-! ## Rows -/

/-- The elements on the chain of bucket `i`, from its head. -/
def row (c : Chains V) (i : Nat) : List (Element V) := (c.chain i).map .ofCell

/-- The elements in traversal order. -/
def elements (c : Chains V) : List (Element V) := c.traversal.map .ofCell

/-- The representation invariant: the chains hold the elements of the rows given. -/
structure Arranged (c : Chains V) (rows : Nat → List (Element V)) : Prop where
  buckets_pos : 0 < c.bucketCount
  linked : ∀ i, Segment c.nodes (c.buckets.head i) (rows i) none
  home : ∀ i, ∀ e ∈ rows i, c.buckets.home e.hash = i
  complete : ∀ k n, c.nodes.get? k = some n → ∃ i, ∃ e ∈ rows i, e.key = k

/-- Every chain runs through live nodes to an empty link, every live node is on the chain of its
home bucket and on no other, and there is a bucket. -/
def WellFormed (c : Chains V) : Prop := c.Arranged c.row

theorem Arranged.row_eq (h : c.Arranged rows) : c.row = rows := by
  funext i
  exact (h.linked i).cellsFrom_eq

theorem Arranged.wellFormed (h : c.Arranged rows) : c.WellFormed := by
  rw [WellFormed, h.row_eq]
  exact h

theorem elements_eq (c : Chains V) : c.elements = (List.range c.bucketCount).flatMap c.row := by
  rw [elements, traversal, List.map_flatMap]
  rfl

theorem map_value_elements (c : Chains V) :
    c.elements.map (·.value) = c.traversal.map (·.2.value) := by
  rw [elements, List.map_map]
  rfl

theorem length_row (c : Chains V) (i : Nat) : (c.row i).length = (c.chain i).length :=
  List.length_map ..

/-! ## Rows and nodes -/

theorem Arranged.get? (h : c.Arranged rows) {i : Nat} {e : Element V} (he : e ∈ rows i) :
    ∃ n, c.nodes.get? e.key = some n ∧ n.value = e.value ∧ n.hash = e.hash :=
  (h.linked i).get? e he

theorem Arranged.nodup (h : c.Arranged rows) (i : Nat) : (keysOf (rows i)).Nodup :=
  (h.linked i).nodup

theorem Arranged.mem_home (h : c.Arranged rows) {k : ArenaKey} {n : Node V}
    (hn : c.nodes.get? k = some n) : ⟨k, n.value, n.hash⟩ ∈ rows (c.buckets.home n.hash) := by
  obtain ⟨i, e, he, rfl⟩ := h.complete k n hn
  obtain ⟨n', hn', hv, hh⟩ := h.get? he
  obtain rfl := Option.some.inj (hn.symm.trans hn')
  rw [hh, h.home i e he, hv]
  exact he

/-- Elements of one key are one element, in one row. -/
theorem Arranged.eq_of_key (h : c.Arranged rows) {i j : Nat} {e e' : Element V}
    (he : e ∈ rows i) (he' : e' ∈ rows j) (hkey : e.key = e'.key) : e = e' ∧ i = j := by
  obtain ⟨n, hn, hv, hh⟩ := h.get? he
  obtain ⟨n', hn', hv', hh'⟩ := h.get? he'
  rw [hkey] at hn
  obtain rfl := Option.some.inj (hn.symm.trans hn')
  have heq : e = e' := by
    obtain ⟨k, v, x⟩ := e
    obtain ⟨k', v', x'⟩ := e'
    simp_all
  refine ⟨heq, ?_⟩
  rw [← h.home i e he, ← h.home j e' he', heq]

theorem Arranged.not_mem_of_ne (h : c.Arranged rows) {i j : Nat} (hij : i ≠ j) {e : Element V}
    (he : e ∈ rows i) : e.key ∉ keysOf (rows j) := by
  intro hmem
  obtain ⟨e', he', hkey⟩ := List.mem_map.1 hmem
  exact hij (h.eq_of_key he he' hkey.symm).2

theorem Arranged.not_mem_of_none (h : c.Arranged rows) {k : ArenaKey}
    (hk : c.nodes.get? k = none) (i : Nat) : k ∉ keysOf (rows i) := by
  intro hmem
  obtain ⟨e, he, rfl⟩ := List.mem_map.1 hmem
  obtain ⟨n, hn, -⟩ := h.get? he
  rw [hk] at hn
  cases hn

theorem Arranged.home_lt (h : c.Arranged rows) (hash : UInt64) :
    c.buckets.home hash < c.bucketCount :=
  Buckets.home_lt _ _ h.buckets_pos

theorem Arranged.lt_of_mem (h : c.Arranged rows) {i : Nat} {e : Element V} (he : e ∈ rows i) :
    i < c.bucketCount := by
  rw [← h.home i e he]
  exact h.home_lt e.hash

theorem Arranged.head_isNone (h : c.Arranged rows) (i : Nat) :
    (c.buckets.head i).isNone = (rows i).isEmpty := by
  have hlinked := h.linked i
  cases hrow : rows i with
  | nil =>
      rw [hrow] at hlinked
      rw [segment_nil_iff.1 hlinked]
      rfl
  | cons e es =>
      rw [hrow] at hlinked
      rw [(segment_cons_iff.1 hlinked).1]
      rfl

/-! ## The traversal -/

theorem Arranged.elements_eq (h : c.Arranged rows) :
    c.elements = (List.range c.bucketCount).flatMap rows := by
  rw [Chains.elements_eq, h.row_eq]

theorem Arranged.mem_elements (h : c.Arranged rows) {e : Element V} :
    e ∈ c.elements ↔ ∃ i, e ∈ rows i := by
  rw [h.elements_eq, List.mem_flatMap]
  constructor
  · rintro ⟨i, -, he⟩
    exact ⟨i, he⟩
  · rintro ⟨i, he⟩
    exact ⟨i, List.mem_range.2 (h.lt_of_mem he), he⟩

theorem Arranged.nodup_elements (h : c.Arranged rows) : (keysOf c.elements).Nodup := by
  rw [h.elements_eq, keysOf, List.map_flatMap, List.nodup_flatMap]
  refine ⟨fun i _ => h.nodup i, List.Pairwise.imp_of_mem ?_ List.nodup_range⟩
  intro i j _ _ hij
  show List.Disjoint _ _
  rw [List.disjoint_left]
  intro k hk hk'
  obtain ⟨e, he, rfl⟩ := List.mem_map.1 hk
  exact h.not_mem_of_ne hij he hk'

theorem Arranged.mem_keysOf_elements (h : c.Arranged rows) {k : ArenaKey} :
    k ∈ keysOf c.elements ↔ ∃ n, c.nodes.get? k = some n := by
  simp only [keysOf, List.mem_map, h.mem_elements]
  constructor
  · rintro ⟨e, ⟨i, he⟩, rfl⟩
    obtain ⟨n, hn, -⟩ := h.get? he
    exact ⟨n, hn⟩
  · rintro ⟨n, hn⟩
    exact ⟨_, ⟨_, h.mem_home hn⟩, rfl⟩

theorem Arranged.length_elements (h : c.Arranged rows) : c.elements.length = c.size := by
  rw [← List.length_map (·.key)]
  exact (Arena.size_eq_length h.nodup_elements fun k => h.mem_keysOf_elements).symm

theorem Arranged.size_eq_sum (h : c.Arranged rows) :
    c.size = ((List.range c.bucketCount).map fun i => (rows i).length).sum := by
  rw [← h.length_elements, h.elements_eq, List.length_flatMap]

/-- The elements found in the arena are those that the traversal meets. -/
theorem Arranged.mem_elements_iff_get? (h : c.Arranged rows) {e : Element V} :
    e ∈ c.elements
      ↔ ∃ n, c.nodes.get? e.key = some n ∧ n.value = e.value ∧ n.hash = e.hash := by
  rw [h.mem_elements]
  constructor
  · rintro ⟨i, he⟩
    exact h.get? he
  · rintro ⟨n, hn, hv, hh⟩
    have hmem := h.mem_home hn
    rw [hv, hh] at hmem
    exact ⟨_, hmem⟩

theorem Arranged.occupied_eq (h : c.Arranged rows) :
    c.buckets.occupied = (List.range c.bucketCount).countP fun i => !(rows i).isEmpty := by
  rw [Buckets.occupied, ← Array.countP_toList, Buckets.toList_heads, List.countP_map]
  refine congrArg (List.countP · _) (funext fun i => ?_)
  show (c.buckets.head i).isSome = !(rows i).isEmpty
  rw [← h.head_isNone i]
  cases c.buckets.head i <;> rfl

end Chains

end SeparateChaining
