import SeparateChaining.Environment.Policies
import SeparateChaining.Proofs.Storage.Budget
import SeparateChaining.Proofs.Tally

/-!
# Environments that answer as policies do

The contract at the other end from `wild`: foreign code gives the
answers of given policies and never panics, and storage that was
granted is taken back. Requests may still be refused. Under `exact` an
operation cannot but come to its end (`exact_ends`), and what the laws
of the operations say of the answers becomes an equation.
-/

namespace SeparateChaining

variable {V K W α : Type}

/-- Equality of keys is an equivalence, and equal keys hash alike. -/
structure Policies.Coherent (p : Policies V K) : Prop where
  refl : ∀ a, p.keyEq a a = true
  symm : ∀ a b, p.keyEq a b = true → p.keyEq b a = true
  trans : ∀ a b c, p.keyEq a b = true → p.keyEq b c = true → p.keyEq a c = true
  hash : ∀ a b, p.keyEq a b = true → p.hash a = p.hash b

/-- Keys may be compared by what `g` makes of them, if that settles their hashes. -/
theorem Policies.Coherent.of_iff {p : Policies V K} (g : K → α)
    (heq : ∀ a b, p.keyEq a b = true ↔ g a = g b)
    (hhash : ∀ a b, g a = g b → p.hash a = p.hash b) : p.Coherent where
  refl a := (heq a a).2 rfl
  symm a b h := (heq b a).2 ((heq a b).1 h).symm
  trans a b c hab hbc := (heq a c).2 (((heq a b).1 hab).trans ((heq b c).1 hbc))
  hash a b h := hhash a b ((heq a b).1 h)

/-- Foreign code answers as the policies say. In `held w d` the world `w` has the units `d` granted
to the table: what is granted is added to them, and any of them are taken back. -/
structure Environment.Follows (env : Environment V K W) (p : Policies V K)
    (held : W → Debt → Prop) : Prop where
  extract : ∀ seen v w d, held w d → Gives held d (p.extract v) (env.extract seen v w)
  hash : ∀ seen k w d, held w d → Gives held d (p.hash k) (env.hash seen k w)
  keyEq : ∀ seen a b w d, held w d → Gives held d (p.keyEq a b) (env.keyEq seen a b w)
  dispose : ∀ seen v w d, held w d → Gives held d () (env.dispose seen v w)
  unwinding : ∀ seen v w d, held w d → held (env.disposeUnwinding seen v w) d
  report : ∀ n w d, held w d → held (env.report n w) d
  reserve : ∀ bytes w d, held w d → held (env.reserve bytes w).2 d
  allocate : ∀ b n w d, held w d → match env.allocate b n w with
    | (.ok (), w') => held w' (d.add b n)
    | (.error _, w') => held w' d
  deallocate : ∀ b n w d, held w (d.add b n) → Gives held d () (env.deallocate b n w)

theorem Supply.takesBack_unlimited (ceiling nodeBytes slotBytes : Nat) :
    (unlimited ceiling nodeBytes slotBytes : Supply W).TakesBack :=
  fun _ _ w => ⟨w, rfl⟩

/-- Nothing needs to be known of a world that takes back whatever it is given. -/
theorem Policies.follows_takesBack (p : Policies V K) {sup : Supply W} (hsup : sup.TakesBack) :
    (p.environment sup).Follows p fun _ _ => True where
  extract _ _ w _ _ := ⟨w, rfl, trivial⟩
  hash _ _ w _ _ := ⟨w, rfl, trivial⟩
  keyEq _ _ _ w _ _ := ⟨w, rfl, trivial⟩
  dispose _ _ w _ _ := ⟨w, rfl, trivial⟩
  unwinding _ _ _ _ _ := trivial
  report _ _ _ _ := trivial
  reserve _ _ _ _ := trivial
  allocate b n w _ _ := by
    rcases (p.environment sup).allocate b n w with ⟨e | u, w'⟩
    · trivial
    · trivial
  deallocate b n w _ _ := by
    obtain ⟨w', hback⟩ := hsup b n w
    exact ⟨w', hback, trivial⟩

theorem Policies.follows_budget (p : Policies V K) (nodeBytes slotBytes : Nat) :
    (p.environment (Budget.supply nodeBytes slotBytes)).Follows p Budget.Counts where
  extract _ _ b _ h := ⟨b, rfl, h⟩
  hash _ _ b _ h := ⟨b, rfl, h⟩
  keyEq _ _ _ b _ h := ⟨b, rfl, h⟩
  dispose _ _ b _ h := ⟨b, rfl, h⟩
  unwinding _ _ _ _ h := h
  report _ _ _ h := h
  reserve _ _ _ h := h
  allocate block n b d h := by
    have hgrant := h.allocate block n
    rw [show (p.environment (Budget.supply nodeBytes slotBytes)).allocate block n b
      = b.allocate block n from rfl]
    rcases hrun : b.allocate block n with ⟨e | u, b'⟩
    · rw [hrun] at hgrant
      exact hgrant
    · rw [hrun] at hgrant
      exact hgrant
  deallocate block n b d h := by
    obtain ⟨b', hreturn, hcounts⟩ := h.deallocate
    exact ⟨b', Budget.supply_deallocate_ok hreturn, hcounts⟩

/-- Policies that are plain functions never panic. -/
theorem Policies.caller_not_raises (p : Policies V K) (sup : Supply W) (q : Panic) :
    ¬(p.environment sup).toCaller.Raises q := by
  intro h
  cases h with
  | extract run => cases run
  | hash run => cases run
  | keyEq run => cases run
  | copy run => cases run
  | dispose run => cases run

namespace Contract

/-- Whatever foreign code may be said to have answered is what the policies answer. -/
structure Says (C : Contract V K W) (p : Policies V K) : Prop where
  key : ∀ {v k}, C.key v k → k = p.extract v
  hash : ∀ {k hash}, C.hash k hash → hash = p.hash k
  eq : ∀ {a b same}, C.eq a b same → same = p.keyEq a b

variable {env : Environment V K W} {p : Policies V K} {held : W → Debt → Prop}

/-- The answers are those of the policies, nothing panics, and what the table holds is granted. -/
def exact (p : Policies V K) (held : W → Debt → Prop) : Contract V K W where
  inv d t w := t.fence = none ∧ held w (Table.live 0 t d)
  panics _ := False
  refuses _ := True
  key v k := k = p.extract v
  hash k hash := hash = p.hash k
  eq a b same := same = p.keyEq a b

theorem says_exact : (exact p held).Says p := ⟨fun h => h, fun h => h, fun h => h⟩

theorem settles_exact {d : Debt} {t : Table V} {a : α} {r : EStateM.Result Panic W α}
    (hfence : t.fence = none) (h : Gives held (Table.live 0 t d) a r) {ok : α → Prop}
    (hok : ok a) : (exact p held).Settles d t ok r := by
  obtain ⟨w, rfl, hheld⟩ := h
  exact ⟨⟨hfence, hheld⟩, hok⟩

theorem obeyed_exact (henv : env.Follows p held) : (exact p held).Obeyed env where
  extract _ seen v w h := settles_exact h.1 (henv.extract seen v w _ h.2) rfl
  hash _ seen k w h := settles_exact h.1 (henv.hash seen k w _ h.2) rfl
  keyEq _ seen a b w h := settles_exact h.1 (henv.keyEq seen a b w _ h.2) rfl
  dispose _ seen v w h := settles_exact h.1 (henv.dispose seen v w _ h.2) trivial
  unwinding _ seen v w h := ⟨h.1, henv.unwinding seen v w _ h.2⟩
  report _ _ n w h := ⟨h.1, henv.report n w _ h.2⟩
  reserve _ _ bytes w h := ⟨h.1, henv.reserve bytes w _ h.2⟩
  unreserved _ _ _ _ := trivial
  allocate d t b n w h := by
    have hgrant := henv.allocate b n w _ h.2
    rcases hrun : env.allocate b n w with ⟨e | u, w'⟩
    · rw [hrun] at hgrant
      exact ⟨⟨h.1, hgrant⟩, trivial⟩
    · rw [hrun] at hgrant
      refine ⟨h.1, ?_⟩
      rw [Table.live_add]
      exact hgrant
  deallocate d t b n w h := by
    refine settles_exact h.1 (henv.deallocate b n w _ ?_) trivial
    rw [← Table.live_add]
    exact h.2

theorem grows_exact : (exact p held).Grows := by
  refine ⟨fun t n t' w _ _ _ hgrown h => ?_, fun _ _ _ _ _ _ _ _ _ _ h => h⟩
  refine ⟨hgrown.fence.trans h.1, ?_⟩
  rw [← Table.live_grown 0 hgrown]
  exact h.2

theorem links_exact {beside : Bool} : (exact p held).Links beside := by
  intro t p v hash w _ _ _ h
  refine ⟨h.1, ?_⟩
  rw [← Table.live_linked]
  exact h.2

theorem unlinks_exact : (exact p held).Unlinks := by
  intro t k e w hwf he h
  refine ⟨h.1, ?_⟩
  rw [← Table.live_without 0 hwf he]
  exact h.2

theorem edits_exact : (exact p held).Edits := by
  intro t k f n w _ _ h
  refine ⟨h.1, ?_⟩
  rw [← Table.live_edited]
  exact h.2

/-- An operation that keeps the exact contract comes to its end. -/
theorem exact_ends {op : Op W V α} {post : α → Debt → Table V → Prop} {t : Table V}
    (h : (exact p held).Keeps none 0 t op post) (ht : t.Sound) {w : W}
    (hw : held w (Table.live 0 t 0)) :
    ∃ a t' w' d, op ⟨t, w⟩ = .ok a ⟨t', w'⟩ ∧ t'.Sound ∧ held w' (Table.live 0 t' d)
      ∧ post a d t' := by
  have hinv : (exact p held).inv 0 t w := ⟨ht.fence, hw⟩
  cases hrun : op ⟨t, w⟩ with
  | error p s =>
      obtain ⟨t', -, -, -, hpanic⟩ := h.of_run_error ht.fence ht.wellFormed hinv hrun
      exact hpanic.elim
  | ok a s =>
      obtain ⟨d, t', htable, ⟨hfence, hheld⟩, hwf, hpost⟩ :=
        h.of_run_ok ht.fence ht.wellFormed hinv hrun
      obtain ⟨table, w'⟩ := s
      obtain rfl : table = t' := htable.trans (Table.fencedBy_eq hfence)
      exact ⟨a, table, w', d, rfl, ⟨hwf, hfence⟩, hheld, hpost⟩

end Contract

end SeparateChaining
