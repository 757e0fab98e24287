import SeparateChaining.Proofs.Keyed

/-!
# Finite maps

What maps and sets are to those who use them: under each key at most one
element. A function from keys says which, and a bag stands for it if
what the bag has with a key is what the function has under it (`Holds`).
Keys may be equal without being the same, so what is set under a key is
set under all that equal it. Each change of a bag that maps and sets
make has one law.
-/

namespace SeparateChaining

variable {V K : Type}

/-- What stands under each key. -/
abbrev Bindings (V K : Type) := K → Option V

namespace Bindings

/-- Changes what stands under a key, and under those that equal it. -/
def set (eq : K → K → Bool) (m : Bindings V K) (k : K) (o : Option V) : Bindings V K :=
  fun q => if eq k q then o else m q

/-- The list has what stands under each key, once, and nothing else that has the key. -/
def Lists (has : K → V → Bool) (m : Bindings V K) (vs : List V) : Prop :=
  ∀ q, vs.filter (has q) = (m q).toList

end Bindings

/-- The bag has under each key what `m` has there. -/
def Holds (p : Policies V K) (b : Multiset V) (m : Bindings V K) : Prop :=
  ∀ q, b.filter (p.hasKey q · = true) = ↑(m q).toList

theorem filter_hasKey_cons (p : Policies V K) (q : K) (v : V) (b : Multiset V) :
    (v ::ₘ b).filter (p.hasKey q · = true)
      = if p.hasKey q v then v ::ₘ b.filter (p.hasKey q · = true)
        else b.filter (p.hasKey q · = true) := by
  split
  · exact Multiset.filter_cons_of_pos (p := (p.hasKey q · = true)) b ‹_›
  · exact Multiset.filter_cons_of_neg (p := (p.hasKey q · = true)) b ‹_›

/-- An element has the keys that equal one of its keys. -/
theorem Policies.Coherent.hasKey_eq {p : Policies V K} (hp : p.Coherent) {k : K} {v : V}
    (hk : p.hasKey k v = true) (q : K) : p.hasKey q v = p.keyEq k q := by
  rw [Bool.eq_iff_iff]
  exact ⟨fun hq => hp.trans _ _ _ (hp.symm _ _ hk) hq, fun hq => hp.trans _ _ _ hk hq⟩

namespace Holds

variable {p : Policies V K} {b : Multiset V} {m : Bindings V K} {u v : V} {k q : K}

theorem zero (p : Policies V K) : Holds p 0 fun _ => none := fun _ => rfl

theorem eq_some_iff (h : Holds p b m) : m q = some v ↔ v ∈ b ∧ p.hasKey q v = true := by
  have hmem : v ∈ b.filter (p.hasKey q · = true) ↔ v ∈ (↑(m q).toList : Multiset V) := by
    rw [h q]
  rw [Multiset.mem_filter, Multiset.mem_coe, Option.mem_toList] at hmem
  exact hmem.symm

theorem eq_none_iff (h : Holds p b m) : m q = none ↔ ∀ v ∈ b, p.hasKey q v = false := by
  rw [Option.eq_none_iff_forall_ne_some]
  constructor
  · intro hnone v hv
    refine Bool.eq_false_of_not_eq_true ?_
    intro hq
    exact hnone v (h.eq_some_iff.2 ⟨hv, hq⟩)
  · intro hall v hv
    obtain ⟨hmem, hq⟩ := h.eq_some_iff.1 hv
    rw [hall v hmem] at hq
    cases hq

/-- There is one thing under equal keys. -/
theorem congr (h : Holds p b m) (hp : p.Coherent) (hq : p.keyEq k q = true) : m k = m q := by
  refine Option.ext ?_
  intro v
  rw [h.eq_some_iff, h.eq_some_iff]
  refine and_congr_right fun _ => ⟨fun hk => hp.trans _ _ _ hk hq, fun hv => ?_⟩
  exact hp.trans _ _ _ hv (hp.symm _ _ hq)

theorem isSome_iff (h : Holds p b m) : (m q).isSome = true ↔ ∃ v ∈ b, p.hasKey q v = true := by
  rw [Option.isSome_iff_exists]
  exact exists_congr fun v => h.eq_some_iff

theorem countP (h : Holds p b m) (q : K) :
    b.countP (p.hasKey q · = true) = (m q).toList.length := by
  rw [Multiset.countP_eq_card_filter, h q, Multiset.coe_card]

theorem lists {vs : List V} (h : Holds p ↑vs m) : m.Lists p.hasKey vs := by
  intro q
  have hperm : (↑(vs.filter (p.hasKey q)) : Multiset V) = ↑(m q).toList := by
    rw [← h q, Multiset.filter_coe]
    simp only [Bool.decide_eq_true]
  rw [Multiset.coe_eq_coe] at hperm
  cases hm : m q with
  | none =>
      rw [hm] at hperm
      exact List.perm_nil.1 hperm
  | some v =>
      rw [hm] at hperm
      exact List.perm_singleton.1 hperm

/-! ## Changes -/

/-- What stands under a key is set to what it is. -/
theorem set_self (h : Holds p b m) (hp : p.Coherent) {o : Option V} (ho : m k = o) :
    m.set p.keyEq k o = m := by
  funext q
  rw [Bindings.set]
  split
  · rw [← ho, h.congr hp ‹_›]
  · rfl

/-- An element is added whose key is new. -/
theorem add (h : Holds p b m) (hp : p.Coherent) (hnew : m k = none)
    (hv : p.hasKey k v = true) : Holds p (v ::ₘ b) (m.set p.keyEq k (some v)) := by
  intro q
  rw [filter_hasKey_cons, h q, hp.hasKey_eq hv, Bindings.set]
  split
  · have hnone : m q = none := (h.congr hp ‹_›).symm.trans hnew
    rw [hnone]
    rfl
  · rfl

/-- What the rest of a bag has when one element is left out. -/
theorem filter_rest (h : Holds p (u ::ₘ b) m) (q : K) :
    b.filter (p.hasKey q · = true) = if p.hasKey q u then 0 else ↑(m q).toList := by
  have hfilter := h q
  rw [filter_hasKey_cons] at hfilter
  split at hfilter
  · have hu : m q = some u := h.eq_some_iff.2 ⟨Multiset.mem_cons_self u b, ‹_›⟩
    rw [hu] at hfilter
    rw [if_pos ‹_›]
    exact (Multiset.cons_inj_right u).1 hfilter
  · rw [if_neg ‹_›, hfilter]

/-- An element is replaced by one with an equal key. -/
theorem replace (h : Holds p (u ::ₘ b) m) (hp : p.Coherent) (hu : p.hasKey k u = true)
    (hv : p.hasKey k v = true) : Holds p (v ::ₘ b) (m.set p.keyEq k (some v)) := by
  intro q
  have hrest := h.filter_rest q
  rw [hp.hasKey_eq hu] at hrest
  rw [filter_hasKey_cons, hrest, hp.hasKey_eq hv, Bindings.set]
  split
  · rfl
  · rfl

/-- An element is taken out. -/
theorem remove (h : Holds p (u ::ₘ b) m) (hp : p.Coherent) (hu : p.hasKey k u = true) :
    Holds p b (m.set p.keyEq k none) := by
  intro q
  rw [h.filter_rest q, hp.hasKey_eq hu, Bindings.set]
  split
  · rfl
  · rfl

/-- Everything with a key is taken out. -/
theorem removeAll (h : Holds p b m) (hp : p.Coherent) (k : K) :
    Holds p (b.filter (p.hasKey k · = false)) (m.set p.keyEq k none) := by
  intro q
  have hcomm : (b.filter (p.hasKey k · = false)).filter (p.hasKey q · = true)
      = (b.filter (p.hasKey q · = true)).filter (p.hasKey k · = false) := Multiset.filter_comm ..
  rw [hcomm, h q, Bindings.set, Multiset.filter_coe]
  cases hm : m q with
  | none =>
      split
      · rfl
      · rfl
  | some v =>
      have hsame : p.hasKey k v = p.keyEq k q := by
        rw [hp.hasKey_eq (h.eq_some_iff.1 hm).2 k, Bool.eq_iff_iff]
        exact ⟨hp.symm q k, hp.symm k q⟩
      split
      · simp [*]
      · simp [*]

end Holds

end SeparateChaining
