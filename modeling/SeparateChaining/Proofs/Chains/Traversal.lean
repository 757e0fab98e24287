import Mathlib.Data.List.Basic
import SeparateChaining.Proofs.Chains.WellFormed
import SeparateChaining.Table.Iterator

/-!
# Walking in traversal order

`first` and `successor` step through the elements in the order in which
the traversal lists them: the successor of a node is the node of the
element after it (`Arranged.successor_eq`). Within a chain that is the
next link; at the end of a chain it is the head of the first bucket
behind it that is not empty. So an iterator from one element up to
another yields the elements in between (`Arranged.take_eq`), and a
cursor that is moved on meets them (`Arranged.walk_eq`).
-/

namespace SeparateChaining.Chains

variable {V : Type} {c : Chains V} {rows : Nat → List (Element V)}

/-- The link to the first of `es`. -/
def linkTo (es : List (Element V)) : Link := es.head?.map (·.key)

@[simp] theorem linkTo_nil : linkTo ([] : List (Element V)) = none := rfl

@[simp] theorem linkTo_cons (e : Element V) (es : List (Element V)) :
    linkTo (e :: es) = some e.key := rfl

theorem Segment.link_eq {nodes : Arena (Node V)} {l m : Link} {e : Element V}
    {es : List (Element V)} (h : Segment nodes l (e :: es) m) : l = linkTo (e :: es) :=
  (segment_cons_iff.1 h).1

/-- The elements from bucket `i` on. -/
def elementsFrom (c : Chains V) (rows : Nat → List (Element V)) (i : Nat) : List (Element V) :=
  (List.range' i (c.bucketCount - i)).flatMap rows

/-- Looking for a bucket that is not empty finds the first element from there on, by induction on
the number of buckets left. -/
theorem Arranged.firstFrom_eq (h : c.Arranged rows) (i : Nat) :
    c.buckets.firstFrom i = linkTo (c.elementsFrom rows i) := by
  generalize hleft : c.bucketCount - i = left
  induction left generalizing i with
  | zero =>
      have hnot : ¬i < c.buckets.heads.size := Nat.not_lt.2 (Nat.sub_eq_zero_iff_le.1 hleft)
      rw [Buckets.firstFrom, dif_neg hnot, elementsFrom, hleft]
      rfl
  | succ left ih =>
      have hlt : i < c.buckets.heads.size := Nat.lt_of_sub_eq_succ hleft
      have hrest := ih (i + 1) (by omega)
      have hhead : c.buckets.heads[i] = c.buckets.head i := by simp [Buckets.head, Array.getD, hlt]
      have hlinked := h.linked i
      rw [elementsFrom, show c.bucketCount - (i + 1) = left by omega] at hrest
      rw [Buckets.firstFrom, dif_pos hlt, hhead, elementsFrom, hleft, List.range'_succ,
        List.flatMap_cons]
      cases hrow : rows i with
      | nil =>
          rw [hrow] at hlinked
          rw [segment_nil_iff.1 hlinked]
          exact hrest
      | cons e es =>
          rw [hrow] at hlinked
          rw [hlinked.link_eq]
          rfl

theorem Arranged.first_eq (h : c.Arranged rows) : c.first = linkTo c.elements := by
  rw [first, h.firstFrom_eq, h.elements_eq, elementsFrom, List.range_eq_range', Nat.sub_zero]

theorem Arranged.elements_split (h : c.Arranged rows) {i : Nat} (hi : i < c.bucketCount) :
    c.elements = (List.range i).flatMap rows ++ rows i ++ c.elementsFrom rows (i + 1) := by
  have hrange : List.range c.bucketCount
      = List.range i ++ (i :: List.range' (i + 1) (c.bucketCount - (i + 1))) := by
    rw [← List.range'_succ, List.range_eq_range', List.range_eq_range']
    have happend := @List.range'_append_1 0 i (c.bucketCount - (i + 1) + 1)
    rw [Nat.zero_add] at happend
    rw [happend]
    congr 1
    omega
  rw [h.elements_eq, hrange, List.flatMap_append, List.flatMap_cons, List.append_assoc]
  rfl

/-- The successor of a node is the node of the element after it. -/
theorem Arranged.successor_eq (h : c.Arranged rows) {xs ys : List (Element V)} {e : Element V}
    (hsplit : c.elements = xs ++ e :: ys) : c.successor e.key = linkTo ys := by
  have he : e ∈ c.elements := by simp [hsplit]
  obtain ⟨i, hi⟩ := h.mem_elements.1 he
  obtain ⟨as, bs, hrow⟩ := List.append_of_mem hi
  have helements := h.elements_split (h.lt_of_mem hi)
  rw [hrow] at helements
  have hys : ys = bs ++ c.elementsFrom rows (i + 1) := by
    have hnodup : c.elements.Nodup := List.Nodup.of_map _ h.nodup_elements
    rw [hsplit] at hnodup helements
    have hnotin := List.nodup_middle.1 hnodup
    rw [List.nodup_cons, List.mem_append, not_or] at hnotin
    rw [← List.append_assoc, List.append_assoc _ (e :: bs), List.cons_append] at helements
    exact ((List.append_cons_inj_of_notMem hnotin.1.1 hnotin.1.2).1 helements).2.2
  obtain ⟨n, hn, -, hhash⟩ := h.get? hi
  have hchain := h.linked i
  rw [hrow] at hchain
  obtain ⟨m, -, hrest⟩ := segment_append.1 hchain
  obtain ⟨rfl, n', hn', -, hnext⟩ := segment_cons_iff.1 hrest
  obtain rfl := Option.some.inj (hn.symm.trans hn')
  rw [successor, hn, hys]
  cases bs with
  | nil =>
      have hhome : c.buckets.home n.hash = i := by
        rw [hhash]
        exact h.home i e hi
      simp only [segment_nil_iff.1 hnext, hhome]
      exact h.firstFrom_eq (i + 1)
  | cons b bs =>
      simp only [hnext.link_eq]
      rfl

theorem Arranged.successor_live (h : c.Arranged rows) {k j : ArenaKey} {n : Node V}
    (hn : c.nodes.get? k = some n) (hj : c.successor k = some j) :
    j ≠ k ∧ ∃ m, c.nodes.get? j = some m := by
  obtain ⟨e, he, rfl⟩ := List.mem_map.1 (h.mem_keysOf_elements.2 ⟨n, hn⟩)
  obtain ⟨xs, ys, hsplit⟩ := List.append_of_mem he
  have hnodup := h.nodup_elements
  rw [h.successor_eq hsplit] at hj
  cases ys with
  | nil => cases hj
  | cons y ys =>
      obtain rfl := Option.some.inj hj
      have hy : y.key ∈ keysOf c.elements := by
        rw [hsplit]
        simp
      refine ⟨fun heq => ?_, h.mem_keysOf_elements.1 hy⟩
      rw [hsplit] at hnodup
      simp [keysOf, List.nodup_append, heq] at hnodup

theorem Arranged.length_lt_fuel (h : c.Arranged rows) {xs ms zs : List (Element V)}
    (hsplit : c.elements = xs ++ (ms ++ zs)) : ms.length < c.nodes.slots.size + 1 := by
  have hlen := Arena.size_le_slots c.nodes
  have hsize : c.elements.length = c.nodes.size := h.length_elements
  rw [hsplit] at hsize
  simp only [List.length_append] at hsize
  omega

theorem Arranged.linkTo_ne (h : c.Arranged rows) {xs ms zs : List (Element V)} {e : Element V}
    (hsplit : c.elements = xs ++ (e :: ms ++ zs)) : linkTo (e :: ms ++ zs) ≠ linkTo zs := by
  intro heq
  have hnodup := h.nodup_elements
  cases zs with
  | nil => cases heq
  | cons z zs =>
      have hkey : e.key = z.key := Option.some.inj heq
      rw [hsplit] at hnodup
      simp [keysOf, List.nodup_append, hkey] at hnodup

/-! ## Iterators -/

theorem next?_of_stop (c : Chains V) (l : Link) (remaining : Nat) :
    (⟨c, l, l, remaining⟩ : Iterator V).next? = none := by
  rw [Iterator.next?, if_pos rfl]

theorem Arranged.next?_eq (h : c.Arranged rows) {xs ms zs : List (Element V)} {e : Element V}
    (hsplit : c.elements = xs ++ (e :: ms ++ zs)) (remaining : Nat) :
    (⟨c, linkTo (e :: ms ++ zs), linkTo zs, remaining⟩ : Iterator V).next?
      = some (e.value, ⟨c, linkTo (ms ++ zs), linkTo zs, remaining - 1⟩) := by
  have he : e ∈ c.elements := by simp [hsplit]
  obtain ⟨m, hm, hvalue, -⟩ := h.mem_elements_iff_get?.1 he
  simp only [Iterator.next?]
  rw [if_neg (h.linkTo_ne hsplit)]
  simp only [List.cons_append, linkTo_cons, hm, h.successor_eq hsplit, hvalue]
  rfl

/-- An iterator that stands before `ms` and is to stop before `zs` yields `ms`. The induction is on
`ms`; that no node occurs twice keeps the iterator from stopping early. -/
theorem Arranged.take_eq (h : c.Arranged rows) {xs ms zs : List (Element V)}
    (hsplit : c.elements = xs ++ (ms ++ zs)) {n : Nat} (hn : ms.length < n) (remaining : Nat) :
    ((⟨c, linkTo (ms ++ zs), linkTo zs, remaining⟩ : Iterator V).take n).1
      = ms.map (·.value) := by
  induction ms generalizing xs n remaining with
  | nil =>
      cases n with
      | zero => cases hn
      | succ n =>
          rw [List.nil_append, Iterator.take, next?_of_stop]
          rfl
  | cons e ms ih =>
      cases n with
      | zero => cases hn
      | succ n =>
          have hsplit' : c.elements = (xs ++ [e]) ++ (ms ++ zs) := by
            rw [hsplit]
            simp
          have hrest := ih hsplit' (Nat.lt_of_succ_lt_succ hn) (remaining - 1)
          rw [Iterator.take, h.next?_eq hsplit, List.map_cons, ← hrest]

theorem Arranged.toList_eq (h : c.Arranged rows) {xs ms zs : List (Element V)}
    (hsplit : c.elements = xs ++ (ms ++ zs)) (remaining : Nat) :
    (⟨c, linkTo (ms ++ zs), linkTo zs, remaining⟩ : Iterator V).toList = ms.map (·.value) :=
  h.take_eq hsplit (h.length_lt_fuel hsplit) remaining

/-! ## Moving a cursor -/

theorem Arranged.step_eq {t : Table V} (h : t.chains.Arranged rows) {xs ys : List (Element V)}
    {e : Element V} (hsplit : t.chains.elements = xs ++ e :: ys) :
    t.get (t.cursor (linkTo (e :: ys))) = .ok e.value
      ∧ t.next (t.cursor (linkTo (e :: ys))) = .ok (t.cursor (linkTo ys)) := by
  have he : e ∈ t.chains.elements := by simp [hsplit]
  obtain ⟨n, hn, hvalue, -⟩ := h.mem_elements_iff_get?.1 he
  have hcell : t.cell (t.cursor (linkTo (e :: ys))) = .ok (e.key, n) := by
    simp [Table.cell, Table.cursor, hn]
  constructor
  · rw [Table.get, hcell, ← hvalue]
    rfl
  · rw [Table.next, hcell, ← h.successor_eq hsplit]
    rfl

theorem Arranged.walkUpTo_eq {t : Table V} (h : t.chains.Arranged rows)
    {xs ms zs : List (Element V)} (hsplit : t.chains.elements = xs ++ (ms ++ zs)) {n : Nat}
    (hn : ms.length < n) :
    t.walkUpTo (t.cursor (linkTo zs)) n (t.cursor (linkTo (ms ++ zs)))
      = .ok (ms.map (·.value)) := by
  induction ms generalizing xs n with
  | nil =>
      cases n with
      | zero => cases hn
      | succ n =>
          have hsame : (t.cursor (linkTo zs)).same (t.cursor (linkTo zs)) = .ok true := by
            simp [Cursor.same, Table.cursor]
          rw [Table.walkUpTo, List.nil_append, hsame]
          rfl
  | cons e ms ih =>
      cases n with
      | zero => cases hn
      | succ n =>
          have hne := h.linkTo_ne hsplit
          have hsplit' : t.chains.elements = (xs ++ [e]) ++ (ms ++ zs) := by
            rw [hsplit]
            simp
          have hrest := ih hsplit' (Nat.lt_of_succ_lt_succ hn)
          have hcons : t.chains.elements = xs ++ e :: (ms ++ zs) := hsplit
          obtain ⟨hget, hnext⟩ := h.step_eq hcons
          have hsame : (t.cursor (linkTo (e :: ms ++ zs))).same (t.cursor (linkTo zs))
              = .ok false := by
            simp only [Cursor.same, Table.cursor, if_true]
            exact congrArg Except.ok (beq_false_of_ne hne)
          rw [Table.walkUpTo, hsame, List.cons_append, hget, hnext]
          show (t.walkUpTo _ n _ >>= fun vs => Except.ok (e.value :: vs)) = _
          rw [hrest]
          rfl

theorem Arranged.walk_eq {t : Table V} (h : t.chains.Arranged rows) {xs ms zs : List (Element V)}
    (hsplit : t.chains.elements = xs ++ (ms ++ zs)) :
    t.walk (t.cursor (linkTo (ms ++ zs))) (t.cursor (linkTo zs)) = .ok (ms.map (·.value)) :=
  h.walkUpTo_eq hsplit (h.length_lt_fuel hsplit)

/-! ## All elements -/

theorem elements_split_nil (c : Chains V) : c.elements = [] ++ (c.elements ++ []) := by
  rw [List.nil_append, List.append_nil]

theorem Arranged.iterator_eq {t : Table V} (h : t.chains.Arranged rows) :
    t.iterator.toList = t.values := by
  have hlist := h.toList_eq t.chains.elements_split_nil t.size
  rw [List.append_nil, ← h.first_eq, map_value_elements] at hlist
  exact hlist

theorem Arranged.walk_all {t : Table V} (h : t.chains.Arranged rows) :
    t.walk t.firstCursor t.endCursor = .ok t.values := by
  have hwalk := h.walk_eq t.chains.elements_split_nil
  rw [List.append_nil, ← h.first_eq, map_value_elements] at hwalk
  exact hwalk

end SeparateChaining.Chains
