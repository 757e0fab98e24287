import SeparateChaining.Proofs.Regular

/-!
# What the check of a table answers

Under foreign code that speaks for policies the check of a table has one
answer, unless foreign code panics in it: whether the table keeps its
promises (`keepsPromises`), read off the table and the policies alone.
`Tells` says so of an operation, and has one law for each way in which
the parts of the check are put together. Nothing of this needs
well-formed chains. On those of a regular table the promises come down
to one: that there are no more elements than the ladder has buckets.
-/

namespace SeparateChaining

variable {V K W α β : Type}

/-! ## Operations with one answer -/

namespace Op

variable {env : Environment V K W} {t : Table V} {a : α} {b : β}

/-- The operation leaves the table and answers `a`, unless foreign code panics. -/
def Tells (env : Environment V K W) (t : Table V) (op : Op W V α) (a : α) : Prop :=
  ∀ w, (∃ w', op ⟨t, w⟩ = .ok a ⟨t, w'⟩)
    ∨ ∃ q w', op ⟨t, w⟩ = .error q ⟨t, w'⟩ ∧ env.toCaller.Raises q

namespace Tells

theorem pure (a : α) : Tells env t (Pure.pure a) a := fun w => Or.inl ⟨w, rfl⟩

theorem bind {op : Op W V α} {g : α → Op W V β} (hop : Tells env t op a)
    (hg : Tells env t (g a) b) : Tells env t (op >>= g) b := by
  intro w
  rcases hop w with ⟨w', hrun⟩ | ⟨q, w', hrun, hq⟩
  · rw [run_bind_ok hrun]
    exact hg w'
  · exact Or.inr ⟨q, w', run_bind_error hrun g, hq⟩

theorem read (h : Table V → α) : Tells env t (Op.read h) (h t) := fun w => Or.inl ⟨w, rfl⟩

theorem call {act : Table V → EStateM Panic W α} (hok : ∀ x w w', act t w = .ok x w' → x = a)
    (herror : ∀ q w w', act t w = .error q w' → env.toCaller.Raises q) :
    Tells env t (Op.call act) a := by
  intro w
  rw [Op.call]
  cases hrun : act t w with
  | ok x w' =>
      obtain rfl := hok x w w' hrun
      exact Or.inl ⟨w', rfl⟩
  | error q w' => exact Or.inr ⟨q, w', rfl, herror q w w' hrun⟩

theorem fenced {op : Operation} {body : Op W V α} (hfence : t.fence = none)
    (h : Tells env (t.fencedBy (some op)) body a) : Tells env t (Op.fenced op body) a := by
  intro w
  have hdown : t.fencedBy none = t := Table.fencedBy_eq hfence
  rcases h w with ⟨w', hrun⟩ | ⟨q, w', hrun, hq⟩
  · have hfenced := run_fenced_ok hrun
    rw [hdown] at hfenced
    exact Or.inl ⟨w', hfenced.trans (by rw [← hdown]; rfl)⟩
  · have hfenced := run_fenced_error hrun
    rw [hdown] at hfenced
    exact Or.inr ⟨q, w', hfenced.trans (by rw [← hdown]; rfl), hq⟩

/-- A second question that is asked only if the answer to the first was yes. -/
theorem andThen {op op' : Op W V Bool} {first rest : Bool} (h : Tells env t op first)
    (h' : Tells env t op' rest) :
    Tells env t (do if ← op then op' else return false) (first && rest) := by
  refine h.bind ?_
  cases first with
  | true => exact h'
  | false => exact pure false

/-- The same, where a no is looked for. -/
theorem orNot {op op' : Op W V Bool} {first rest : Bool} (h : Tells env t op first)
    (h' : Tells env t op' rest) :
    Tells env t (do if !(← op) then return false else op') (first && rest) := by
  refine h.bind ?_
  cases first with
  | true => exact h'
  | false => exact pure false

end Tells

end Op

/-! ## Elements that come in runs -/

/-- Whether those that satisfy `P` come before all others. `left` says that another has come
already. -/
def comesFirst (P : α → Bool) (left : Bool) : List α → Bool
  | [] => true
  | a :: as => if P a && left then false else comesFirst P (left || !P a) as

/-- Whether, after each entry, those that are the same as it come before all others. -/
def contiguous (same : α → α → Bool) : List α → Bool
  | [] => true
  | a :: as => comesFirst (same a) false as && contiguous same as

theorem comesFirst_iff {P : α → Bool} {left : Bool} {as : List α} :
    comesFirst P left as = true ↔ (left = true → ∀ a ∈ as, P a = false)
      ∧ ∀ a b, [a, b].Sublist as → P a = false → P b = false := by
  induction as generalizing left with
  | nil => simp [comesFirst]
  | cons x xs ih =>
      unfold comesFirst
      cases hx : P x with
      | false =>
          -- another has come by now
          rw [Bool.false_and, if_neg Bool.false_ne_true, ih, Bool.not_false, Bool.or_true]
          constructor
          · rintro ⟨hxs, hpairs⟩
            have hxs := hxs rfl
            refine ⟨fun _ => List.forall_mem_cons.2 ⟨hx, hxs⟩, fun a b hab ha => ?_⟩
            have hb : b ∈ x :: xs := hab.subset (by simp)
            rcases List.mem_cons.1 hb with rfl | hb
            · exact hx
            · exact hxs b hb
          · rintro ⟨-, hpairs⟩
            refine ⟨fun _ a ha => hpairs x a ((List.singleton_sublist.2 ha).cons_cons x) hx, ?_⟩
            exact fun a b hab => hpairs a b (hab.cons x)
      | true =>
          cases left with
          | true => simp [hx]
          | false =>
              rw [Bool.and_false, if_neg Bool.false_ne_true, ih, Bool.not_true, Bool.or_false]
              refine and_congr (by simp) ⟨fun hpairs a b hab ha => ?_, fun hpairs a b hab =>
                hpairs a b (hab.cons x)⟩
              rcases List.sublist_cons_iff.1 hab with hrest | ⟨r, hr, -⟩
              · exact hpairs a b hrest ha
              · obtain ⟨rfl, -⟩ := List.cons.inj hr
                rw [hx] at ha
                cases ha

theorem contiguous_iff {same : α → α → Bool} {as : List α} :
    contiguous same as = true
      ↔ ∀ a b c, [a, b, c].Sublist as → same a b = false → same a c = false := by
  induction as with
  | nil => simp [contiguous]
  | cons x xs ih =>
      rw [contiguous, Bool.and_eq_true, ih, comesFirst_iff]
      constructor
      · rintro ⟨⟨-, hpairs⟩, htriples⟩ a b c habc
        rcases List.sublist_cons_iff.1 habc with hrest | ⟨r, hr, hrest⟩
        · exact htriples a b c hrest
        · obtain ⟨rfl, rfl⟩ := List.cons.inj hr
          exact hpairs b c hrest
      · intro htriples
        refine ⟨⟨fun h => (nomatch h), fun b c hbc => htriples x b c (hbc.cons_cons x)⟩, ?_⟩
        exact fun a b c habc => htriples a b c (habc.cons x)

/-! ## The check -/

namespace Table

variable {env : Environment V K W} {p : Policies V K} {t : Table V}

open Op (Tells)

/-- Whether the table keeps its promises to the policies. -/
def keepsPromises (p : Policies V K) (t : Table V) : Bool :=
  t.isSound
    && ((List.range t.bucketCount).all fun i =>
      (t.chains.chain i).all fun cell => p.hash (p.extract cell.2.value) = cell.2.hash)
    && (List.range t.bucketCount).all fun i =>
      contiguous (fun u v => p.keyEq (p.extract u) (p.extract v))
        ((t.chains.chain i).map (·.2.value))

theorem tells_extractOp (henv : env.Speaks p) (v : V) :
    Tells env t (env.extractOp v) (p.extract v) :=
  Tells.call (fun _ _ _ hrun => henv.extract hrun) fun _ _ _ hrun => .extract hrun

theorem tells_hashOp (henv : env.Speaks p) (k : K) : Tells env t (env.hashOp k) (p.hash k) :=
  Tells.call (fun _ _ _ hrun => henv.hash hrun) fun _ _ _ hrun => .hash hrun

theorem tells_keyEqOp (henv : env.Speaks p) (a b : K) :
    Tells env t (env.keyEqOp a b) (p.keyEq a b) :=
  Tells.call (fun _ _ _ hrun => henv.keyEq hrun) fun _ _ _ hrun => .keyEq hrun

theorem tells_hashesCurrent (henv : env.Speaks p) (cells : List (Cell V)) :
    Tells env t (hashesCurrent env cells)
      (cells.all fun cell => p.hash (p.extract cell.2.value) = cell.2.hash) := by
  induction cells with
  | nil => exact Tells.pure _
  | cons cell cells ih =>
      unfold hashesCurrent
      refine (tells_extractOp henv _).bind ((tells_hashOp henv _).bind ?_)
      rw [List.all_cons]
      split
      · rw [decide_eq_true ‹_›, Bool.true_and]
        exact ih
      · rw [decide_eq_false ‹_›, Bool.false_and]
        exact Tells.pure _

theorem tells_equalComeFirst (henv : env.Speaks p) (k : K) (left : Bool) (vs : List V) :
    Tells env t (equalComeFirst env k left vs)
      (comesFirst (fun v => p.keyEq k (p.extract v)) left vs) := by
  induction vs generalizing left with
  | nil => exact Tells.pure _
  | cons v vs ih =>
      unfold equalComeFirst comesFirst
      refine (tells_extractOp henv v).bind ((tells_keyEqOp henv k _).bind ?_)
      split
      · exact Tells.pure _
      · exact ih _

theorem tells_runsContiguous (henv : env.Speaks p) (vs : List V) :
    Tells env t (runsContiguous env vs)
      (contiguous (fun u v => p.keyEq (p.extract u) (p.extract v)) vs) := by
  induction vs with
  | nil => exact Tells.pure _
  | cons v vs ih =>
      unfold runsContiguous contiguous
      exact (tells_extractOp henv v).bind ((tells_equalComeFirst henv _ false vs).andThen ih)

theorem tells_allChains {op : List (Cell V) → Op W V Bool} {verdict : List (Cell V) → Bool}
    (hop : ∀ cells, Tells env t (op cells) (verdict cells)) (is : List Nat) :
    Tells env t (allChains op is) (is.all fun i => verdict (t.chains.chain i)) := by
  induction is with
  | nil => exact Tells.pure _
  | cons i is ih =>
      unfold allChains
      rw [List.all_cons]
      exact (Tells.read _).bind ((hop _).andThen ih)

/-- The check answers whether the table keeps its promises. -/
theorem tells_check_of_speaks (henv : env.Speaks p) (hfence : t.fence = none) :
    Tells env t (check env) (t.keepsPromises p) := by
  rw [keepsPromises, Bool.and_assoc]
  refine Tells.fenced hfence ((Tells.read _).bind ?_)
  have hhashes := tells_allChains (t := t.fencedBy (some .check)) (tells_hashesCurrent henv)
    (List.range t.bucketCount)
  have hruns := tells_allChains (t := t.fencedBy (some .check))
    (fun cells => tells_runsContiguous henv (cells.map (·.2.value))) (List.range t.bucketCount)
  exact (Tells.read fun t => t.isSound).orNot (hhashes.orNot hruns)

theorem tells_check (henv : env.Heeds p) (hfence : t.fence = none) :
    Tells env t (check env) (t.keepsPromises p) :=
  tells_check_of_speaks henv.speaks hfence

/-! ## The promises of a regular table -/

variable {unique : Bool}

/-- A regular table keeps its promises as far as the ladder goes. -/
theorem Regular.keepsPromises (h : t.Regular p unique) (hp : p.Coherent)
    (hwf : t.chains.WellFormed) : t.keepsPromises p = decide (t.size ≤ Ladder.top) := by
  have hhashes : ((List.range t.bucketCount).all fun i => (t.chains.chain i).all
      fun cell => p.hash (p.extract cell.2.value) = cell.2.hash) = true := by
    rw [List.all_eq_true]
    intro i _
    rw [List.all_eq_true]
    intro cell hcell
    have hrow : Element.ofCell cell ∈ t.chains.row i := List.mem_map_of_mem hcell
    exact decide_eq_true (h.keyed.hashed _ (hwf.mem_elements.2 ⟨i, hrow⟩)).symm
  have hruns : ((List.range t.bucketCount).all fun i =>
      contiguous (fun u v => p.keyEq (p.extract u) (p.extract v))
        ((t.chains.chain i).map (·.2.value))) = true := by
    rw [List.all_eq_true]
    intro i _
    rw [contiguous_iff]
    intro a b c habc hab
    refine Bool.eq_false_of_not_eq_true fun hac => ?_
    -- the key of `a` would be there, then another, and then again
    refine h.keyed.grouped (p.extract a) i ?_
    have hsame : p.hasKey (p.extract a) a = true := hp.refl _
    have hdiffers : p.hasKey (p.extract a) b = false := by
      refine Bool.eq_false_of_not_eq_true fun hba => ?_
      rw [hp.symm _ _ hba] at hab
      cases hab
    have hagain : p.hasKey (p.extract a) c = true := hp.symm _ _ hac
    have hkeys := habc.map (p.hasKey (p.extract a))
    rw [List.map_cons, List.map_cons, List.map_singleton, hsame, hdiffers, hagain,
      List.map_map] at hkeys
    rw [Chains.row, List.map_map]
    exact hkeys
  have hcount : t.size ≤ t.bucketCount ↔ t.size ≤ Ladder.top := by
    constructor
    · exact fun hle => hle.trans (Ladder.bounds_of_mem h.rung).2
    · intro htop
      rcases h.room with hle | hfull
      · exact hle
      · exact htop.trans hfull
  rw [Table.keepsPromises, hhashes, hruns, Bool.and_true, Bool.and_true, isSound,
    Ladder.isRung_of_mem h.rung, hwf.wellPlaced, Bool.true_and, Bool.and_true]
  exact decide_eq_decide.2 hcount

end Table

end SeparateChaining
