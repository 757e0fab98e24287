import SeparateChaining.Proofs.Cursors
import SeparateChaining.Proofs.Run

/-!
# Positions in the traversal

The cursors of a table that are accepted, and its end, are numbered by
their positions in the traversal: `cursorAt i` stands before all but the
first `i` elements. Moving a cursor on counts its position up
(`next_cursorAt`), so a walk from any of them meets the rest of the
traversal and then the end, and what has come between in the arena, or
which buckets are empty, is not to be seen in it.
-/

namespace SeparateChaining

variable {V K W : Type}

namespace Chains

variable {c : Chains V} {rows : Nat → List (Element V)}

/-- Each live node is on the traversal, with the link that it has. -/
theorem Arranged.mem_traversal (h : c.Arranged rows) {k : ArenaKey} {n : Node V} :
    (k, n) ∈ c.traversal ↔ c.nodes.get? k = some n := by
  have hlive : ∀ {k n}, (k, n) ∈ c.traversal → c.nodes.get? k = some n := by
    intro k n hmem
    obtain ⟨i, -, hi⟩ := List.mem_flatMap.1 hmem
    exact get?_of_mem_follow hi
  refine ⟨hlive, fun hn => ?_⟩
  obtain ⟨e, he, rfl⟩ := List.mem_map.1 (h.mem_keysOf_elements.2 ⟨n, hn⟩)
  obtain ⟨⟨k, m⟩, hcell, rfl⟩ := List.mem_map.1 he
  obtain rfl := Option.some.inj (hn.symm.trans (hlive hcell))
  exact hcell

end Chains

namespace Table

variable {t : Table V}

/-- The cursor behind `i` elements of the traversal: at the next one, or at the end. -/
def cursorAt (t : Table V) (i : Nat) : Cursor :=
  t.cursor ((t.chains.traversal[i]?).map (·.1))

/-- The cursor reached from `c` by so many steps. -/
def advance (t : Table V) : Nat → Cursor → Except Panic Cursor
  | 0, c => .ok c
  | n + 1, c => do t.advance n (← t.next c)

theorem cursorAt_eq (t : Table V) (i : Nat) :
    t.cursorAt i = t.cursor (Chains.linkTo (t.chains.elements.drop i)) := by
  rw [cursorAt, Chains.linkTo, Chains.elements, List.head?_drop, List.getElem?_map,
    Option.map_map]
  rfl

theorem length_traversal (hwf : t.chains.WellFormed) : t.chains.traversal.length = t.size := by
  have hlen := hwf.length_elements
  rwa [Chains.elements, List.length_map] at hlen

theorem cursorAt_zero (hwf : t.chains.WellFormed) : t.cursorAt 0 = t.firstCursor := by
  rw [cursorAt_eq, List.drop_zero, ← hwf.first_eq]
  rfl

theorem cursorAt_of_le (hwf : t.chains.WellFormed) {i : Nat} (h : t.size ≤ i) :
    t.cursorAt i = t.endCursor := by
  rw [cursorAt, List.getElem?_eq_none (by rwa [length_traversal hwf])]
  rfl

theorem isEnd_cursorAt (hwf : t.chains.WellFormed) (i : Nat) :
    (t.cursorAt i).isEnd = true ↔ t.size ≤ i := by
  rw [← length_traversal hwf, ← List.getElem?_eq_none_iff]
  show ((t.chains.traversal[i]?).map (·.1)).isNone = true ↔ _
  rw [Option.isNone_map, Option.isNone_iff_eq_none]

/-- The cursor at a position is accepted, and denotes the element there. -/
theorem cell_cursorAt (hwf : t.chains.WellFormed) {i : Nat} {cell : Cell V}
    (h : t.chains.traversal[i]? = some cell) : t.cell (t.cursorAt i) = .ok cell := by
  obtain ⟨k, n⟩ := cell
  have hn := hwf.mem_traversal.1 (List.mem_of_getElem? h)
  refine cell_eq_ok_iff.2 ⟨rfl, rfl, ?_, hn⟩
  show (t.chains.traversal[i]?).map (·.1) = some k
  rw [h]
  rfl

/-- Every cursor that is accepted is the one at the position of its element. -/
theorem exists_cursorAt (hwf : t.chains.WellFormed) {c : Cursor} {cell : Cell V}
    (h : t.cell c = .ok cell) :
    ∃ i < t.size, c = t.cursorAt i ∧ t.chains.traversal[i]? = some cell := by
  obtain ⟨k, n⟩ := cell
  obtain ⟨htable, hgrowths, hnode, hn⟩ := cell_eq_ok_iff.1 h
  obtain ⟨i, hi⟩ := List.mem_iff_getElem?.1 (hwf.mem_traversal.2 hn)
  obtain ⟨hlt, -⟩ := List.getElem?_eq_some_iff.1 hi
  refine ⟨i, length_traversal hwf ▸ hlt, ?_, hi⟩
  rw [cursorAt, hi, cursor, ← htable, ← hgrowths]
  exact congrArg (Cursor.mk · c.table c.growths) hnode

theorem get_cursorAt (hwf : t.chains.WellFormed) {i : Nat} {v : V} (h : t.values[i]? = some v) :
    t.get (t.cursorAt i) = .ok v := by
  rw [values, List.getElem?_map] at h
  obtain ⟨cell, hcell, rfl⟩ := Option.map_eq_some_iff.1 h
  rw [get, cell_cursorAt hwf hcell]
  rfl

/-- Moving a cursor on counts its position up. -/
theorem next_cursorAt (hwf : t.chains.WellFormed) {i : Nat} (h : i < t.size) :
    t.next (t.cursorAt i) = .ok (t.cursorAt (i + 1)) := by
  have hlt : i < t.chains.elements.length := by rwa [hwf.length_elements]
  have hsplit : t.chains.elements
      = t.chains.elements.take i ++ t.chains.elements[i] :: t.chains.elements.drop (i + 1) := by
    rw [← List.drop_eq_getElem_cons hlt, List.take_append_drop]
  rw [cursorAt_eq, cursorAt_eq, List.drop_eq_getElem_cons hlt]
  exact (hwf.step_eq hsplit).2

theorem advance_cursorAt (hwf : t.chains.WellFormed) {i n : Nat} (h : i + n ≤ t.size) :
    t.advance n (t.cursorAt i) = .ok (t.cursorAt (i + n)) := by
  induction n generalizing i with
  | zero => rfl
  | succ n ih =>
      have hrest := ih (i := i + 1) (by omega)
      rw [advance, next_cursorAt hwf (by omega)]
      show t.advance n (t.cursorAt (i + 1)) = _
      rw [hrest, Nat.add_assoc, Nat.add_comm 1 n]

theorem walk_cursorAt (hwf : t.chains.WellFormed) (i : Nat) :
    t.walk (t.cursorAt i) t.endCursor = .ok (t.values.drop i) := by
  have hsplit : t.chains.elements
      = t.chains.elements.take i ++ (t.chains.elements.drop i ++ []) := by
    rw [List.append_nil, List.take_append_drop]
  have hwalk := hwf.walk_eq hsplit
  rw [List.append_nil, ← cursorAt_eq, List.map_drop, Chains.map_value_elements] at hwalk
  exact hwalk

/-! ## The position of a cursor -/

theorem cursorAt_inj (hwf : t.chains.WellFormed) {i j : Nat} (hi : i ≤ t.size) (hj : j ≤ t.size)
    (h : t.cursorAt i = t.cursorAt j) : i = j := by
  have hnodup := hwf.nodup_elements
  rw [Chains.elements, Chains.keysOf, List.map_map] at hnodup
  have hkeys : (t.chains.traversal.map (·.1))[i]? = (t.chains.traversal.map (·.1))[j]? := by
    rw [List.getElem?_map, List.getElem?_map]
    exact congrArg Cursor.node h
  have hlength : (t.chains.traversal.map (·.1)).length = t.size := by
    rw [List.length_map, length_traversal hwf]
  by_cases hlt : i < t.size
  · exact (List.getElem?_inj (hlength ▸ hlt) hnodup).1 hkeys
  · have hend : t.size ≤ j := by
      rw [← hlength, ← List.getElem?_eq_none_iff, ← hkeys, List.getElem?_eq_none_iff, hlength]
      exact Nat.le_of_not_lt hlt
    omega

/-- The position that a cursor has in the traversal now, if it has one. -/
def position? (t : Table V) (c : Cursor) : Option Nat :=
  (List.range (t.size + 1)).find? fun i => t.cursorAt i = c

end Table

end SeparateChaining
