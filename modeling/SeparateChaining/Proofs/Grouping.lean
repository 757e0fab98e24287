import Mathlib.Data.List.Basic

/-!
# Elements that stand together

`Grouped P l` says that the elements of `l` which satisfy `P` stand
side by side: along the list the answers of `P` never go from yes to no
and back to yes. As a statement about the list of answers it survives
whatever only drops, reverses or repeats answers, and that is all that
the operations of a table do to a chain.
-/

namespace SeparateChaining

variable {α β : Type} {P : α → Bool} {l l' xs ys ms : List α} {a b : α}

/-- The elements that satisfy `P` stand side by side. -/
def Grouped (P : α → Bool) (l : List α) : Prop := ¬[true, false, true].Sublist (l.map P)

namespace Grouped

theorem nil : Grouped P [] := by
  intro hyes
  cases hyes

/-- Only the answers count. -/
theorem of_map_eq {Q : β → Bool} {m : List β} (h : Grouped P l) (hmap : m.map Q = l.map P) :
    Grouped Q m := by
  rw [Grouped, hmap]
  exact h

theorem sublist (h : Grouped P l) (hsub : l'.Sublist l) : Grouped P l' := by
  intro hyes
  exact h (hyes.trans (hsub.map P))

theorem reverse (h : Grouped P l) : Grouped P l.reverse := by
  intro hyes
  rw [List.map_reverse] at hyes
  exact h (List.reverse_sublist.1 hyes)

/-- An element may be put in front that does not satisfy `P`, or if none does so far. -/
theorem cons (h : Grouped P l) (ha : P a = true → ∀ x ∈ l, P x = false) : Grouped P (a :: l) := by
  intro hyes
  rw [List.map_cons] at hyes
  rcases List.sublist_cons_iff.1 hyes with hrest | ⟨r, hr, hrest⟩
  · exact h hrest
  · obtain ⟨hyes, rfl⟩ := List.cons.inj hr
    have hmem : true ∈ l.map P := hrest.subset (by simp)
    obtain ⟨x, hx, hP⟩ := List.mem_map.1 hmem
    rw [ha hyes.symm x hx] at hP
    cases hP

theorem append_left (h : Grouped P l) (hxs : ∀ x ∈ xs, P x = false) : Grouped P (xs ++ l) := by
  induction xs with
  | nil => exact h
  | cons x xs ih =>
      obtain ⟨hx, hxs⟩ := List.forall_mem_cons.1 hxs
      refine (ih hxs).cons ?_
      intro hyes
      rw [hx] at hyes
      cases hyes

theorem append_right (h : Grouped P l) (hys : ∀ y ∈ ys, P y = false) : Grouped P (l ++ ys) := by
  have hys' : ∀ y ∈ ys.reverse, P y = false := fun y hy => hys y (List.mem_reverse.1 hy)
  have hback := (h.reverse.append_left hys').reverse
  simpa using hback

end Grouped

/-- Repeating a bit where it stands makes no alternation possible that was not. -/
theorem sublist_of_repeated {c : Bool} {bs cs s : List Bool} (halt : s.IsChain (· ≠ ·))
    (h : s.Sublist (bs ++ c :: c :: cs)) : s.Sublist (bs ++ c :: cs) := by
  induction bs generalizing s with
  | nil =>
      rw [List.nil_append] at h ⊢
      rcases List.sublist_cons_iff.1 h with hrest | ⟨r, rfl, hrest⟩
      · exact hrest
      · rcases List.sublist_cons_iff.1 hrest with hrest | ⟨u, rfl, -⟩
        · exact hrest.cons_cons c
        · -- both copies used, which an alternation does not
          exact absurd rfl (List.isChain_cons_cons.1 halt).1
  | cons d bs ih =>
      rw [List.cons_append] at h ⊢
      rcases List.sublist_cons_iff.1 h with hrest | ⟨r, rfl, hrest⟩
      · exact (ih halt hrest).cons d
      · exact (ih halt.of_cons hrest).cons_cons d

namespace Grouped

/-- An element may be put after one with the same answer. -/
theorem insert_after (h : Grouped P (xs ++ a :: ys)) (hab : P b = P a) :
    Grouped P (xs ++ a :: b :: ys) := by
  intro hyes
  refine h ?_
  rw [List.map_append, List.map_cons, List.map_cons, hab] at hyes
  rw [List.map_append, List.map_cons]
  exact sublist_of_repeated (by decide) hyes

/-- Behind elements that satisfy `P` and one that does not, none satisfies it any more. -/
theorem none_after (h : Grouped P (xs ++ (ms ++ ys))) (hms : ms ≠ [])
    (hin : ∀ m ∈ ms, P m = true) (hout : ∀ y ∈ ys.head?, P y = false) : ∀ y ∈ ys, P y = false := by
  intro y hy
  by_contra hP
  obtain ⟨m, ms', rfl⟩ := List.exists_cons_of_ne_nil hms
  obtain ⟨z, zs, rfl⟩ := List.exists_cons_of_ne_nil (List.ne_nil_of_mem hy)
  have hz : P z = false := hout z rfl
  have hyes : P y = true := by simpa using hP
  have hrest : y ∈ zs := by
    rcases List.mem_cons.1 hy with rfl | hrest
    · rw [hz] at hyes
      cases hyes
    · exact hrest
  have hanswers : [m, z, y].map P = [true, false, true] := by
    simp [hin m (List.mem_cons_self ..), hz, hyes]
  refine h (hanswers ▸ List.Sublist.map P ?_)
  have htail : [z, y].Sublist (ms' ++ z :: zs) :=
    ((List.singleton_sublist.2 hrest).cons_cons z).trans (List.sublist_append_right ..)
  exact (htail.cons_cons m).trans (List.sublist_append_right ..)

/-- What satisfies `P` is one stretch of the list. -/
theorem split (h : Grouped P l) : ∃ xs ms ys, l = xs ++ (ms ++ ys)
    ∧ (∀ x ∈ xs, P x = false) ∧ (∀ m ∈ ms, P m = true) ∧ ∀ y ∈ ys, P y = false := by
  induction l with
  | nil => exact ⟨[], [], [], rfl, by simp, by simp, by simp⟩
  | cons a l ih =>
      obtain ⟨xs, ms, ys, hl, hxs, hms, hys⟩ := ih (h.sublist (List.sublist_cons_self a l))
      cases ha : P a with
      | false =>
          exact ⟨a :: xs, ms, ys, congrArg (a :: ·) hl, List.forall_mem_cons.2 ⟨ha, hxs⟩, hms, hys⟩
      | true =>
          cases xs with
          | nil =>
              exact ⟨[], a :: ms, ys, congrArg (a :: ·) hl, by simp,
                List.forall_mem_cons.2 ⟨ha, hms⟩, hys⟩
          | cons x xs =>
              -- the stretch of `a` has ended at `x`
              have hend : ∀ y ∈ l.head?, P y = false := by
                rw [hl]
                rintro y ⟨⟩
                exact hxs x (List.mem_cons_self ..)
              have hwhole : Grouped P ([] ++ ([a] ++ l)) := h
              have hrest := hwhole.none_after (by simp) (by simpa using ha) hend
              exact ⟨[], [a], l, rfl, by simp, by simpa using ha, hrest⟩

end Grouped

end SeparateChaining
