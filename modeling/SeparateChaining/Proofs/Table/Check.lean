import SeparateChaining.Proofs.Table.Lookup
import SeparateChaining.Table.Check

/-!
# Checking changes nothing

The check of a table walks every chain and calls foreign code on the
way. Whatever it finds, the table stays. On well-formed chains the
structural part of the check succeeds (`Chains.Arranged.wellPlaced`): it
is the executable reading of the invariant.
-/

namespace SeparateChaining

namespace Chains

variable {V : Type} {c : Chains V} {rows : Nat → List (Element V)}

/-- The search for repeated keys finds none exactly if there are none. -/
theorem keysDistinctFrom_iff {seen : Std.HashSet ArenaKey} {cells : List (Cell V)} :
    keysDistinctFrom seen cells = true
      ↔ (cells.map (·.1)).Nodup ∧ ∀ cell ∈ cells, cell.1 ∉ seen := by
  induction cells generalizing seen with
  | nil => simp [keysDistinctFrom]
  | cons cell cells ih =>
      obtain ⟨k, n⟩ := cell
      rw [keysDistinctFrom, Bool.and_eq_true, ih, List.map_cons, List.nodup_cons,
        List.forall_mem_cons]
      simp only [Std.HashSet.mem_insert, beq_iff_eq, not_or, Bool.not_eq_true',
        Std.HashSet.contains_eq_false_iff_not_mem]
      constructor
      · rintro ⟨hk, hnodup, hcells⟩
        refine ⟨⟨fun hmem => ?_, hnodup⟩, hk, fun cell hcell => (hcells cell hcell).2⟩
        obtain ⟨cell, hcell, rfl⟩ := List.mem_map.1 hmem
        exact (hcells cell hcell).1 rfl
      · rintro ⟨⟨hk', hnodup⟩, hk, hcells⟩
        refine ⟨hk, hnodup, fun cell hcell => ⟨?_, hcells cell hcell⟩⟩
        rintro rfl
        exact hk' (List.mem_map_of_mem hcell)

theorem Arranged.wellPlaced (h : c.Arranged rows) : c.wellPlaced = true := by
  unfold Chains.wellPlaced
  rw [Bool.and_eq_true, Bool.and_eq_true]
  refine ⟨⟨?_, ?_⟩, ?_⟩
  · rw [List.all_eq_true]
    intro i _
    rw [isHomeChain, List.all_eq_true]
    intro cell hcell
    have hrow : Element.ofCell cell ∈ rows i := by
      rw [← h.row_eq]
      exact List.mem_map_of_mem hcell
    exact decide_eq_true (h.home i _ hrow)
  · rw [keysDistinct, keysDistinctFrom_iff]
    refine ⟨?_, fun cell _ => Std.HashSet.not_mem_empty⟩
    have hnodup := h.nodup_elements
    rw [elements, keysOf, List.map_map] at hnodup
    exact hnodup
  · rw [beq_iff_eq, ← h.length_elements, elements, List.length_map]

end Chains

namespace Table

variable {V K W : Type} {C : Contract V K W} {env : Environment V K W} {f : Option Operation}
  {t : Table V}

open Contract

theorem keeps_hashesCurrent (henv : C.Obeyed env) (cells : List (Cell V)) :
    C.Keeps f 0 t (hashesCurrent env cells) (still t fun _ => True) := by
  induction cells with
  | nil => exact Keeps.pure ⟨rfl, rfl, trivial⟩
  | cons cell cells ih =>
      unfold hashesCurrent
      refine (keeps_extractOp henv _).bindStill ?_
      intro k _
      refine (keeps_hashOp henv k).bindStill ?_
      intro hash _
      split
      · exact ih
      · exact Keeps.pure ⟨rfl, rfl, trivial⟩

theorem keeps_equalComeFirst (henv : C.Obeyed env) (k : K) (left : Bool) (vs : List V) :
    C.Keeps f 0 t (equalComeFirst env k left vs) (still t fun _ => True) := by
  induction vs generalizing left with
  | nil => exact Keeps.pure ⟨rfl, rfl, trivial⟩
  | cons v vs ih =>
      unfold equalComeFirst
      refine (keeps_extractOp henv v).bindStill ?_
      intro k' _
      refine (keeps_keyEqOp henv k k').bindStill ?_
      intro same _
      split
      · exact Keeps.pure ⟨rfl, rfl, trivial⟩
      · exact ih _

theorem keeps_runsContiguous (henv : C.Obeyed env) (vs : List V) :
    C.Keeps f 0 t (runsContiguous env vs) (still t fun _ => True) := by
  induction vs with
  | nil => exact Keeps.pure ⟨rfl, rfl, trivial⟩
  | cons v vs ih =>
      unfold runsContiguous
      refine (keeps_extractOp henv v).bindStill ?_
      intro k _
      refine (keeps_equalComeFirst henv k false vs).bindStill ?_
      intro first _
      split
      · exact ih
      · exact Keeps.pure ⟨rfl, rfl, trivial⟩

theorem keeps_allChains {p : List (Cell V) → Op W V Bool}
    (hp : ∀ cells, C.Keeps f 0 t (p cells) (still t fun _ => True)) (is : List Nat) :
    C.Keeps f 0 t (allChains p is) (still t fun _ => True) := by
  induction is with
  | nil => exact Keeps.pure ⟨rfl, rfl, trivial⟩
  | cons i is ih =>
      unfold allChains
      refine Keeps.bindRead ((hp _).bindStill fun ok _ => ?_)
      split
      · exact ih
      · exact Keeps.pure ⟨rfl, rfl, trivial⟩

theorem keeps_check (henv : C.Obeyed env) :
    C.Keeps none 0 t (check env) (still t fun _ => True) := by
  refine Keeps.fenced (Keeps.bindRead (Keeps.bindRead ?_))
  split
  · exact Keeps.pure ⟨rfl, rfl, trivial⟩
  · refine (keeps_allChains (keeps_hashesCurrent henv) _).bindStill ?_
    intro ok _
    split
    · exact Keeps.pure ⟨rfl, rfl, trivial⟩
    · exact keeps_allChains (fun cells => keeps_runsContiguous henv _) _

end Table

end SeparateChaining
