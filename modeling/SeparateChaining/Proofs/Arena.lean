import Mathlib.Data.List.Nodup
import Mathlib.Data.List.Perm.Subperm
import SeparateChaining.Arena

/-!
# Laws of the arena

Look-up after each operation, the keys in use, and how an arena ages.

A key is *spent* when its slot has moved past its generation: it names
no cell, and it never will again. `Follows a b` says that `b` comes
after `a` in the life of one arena: what `a` held is held still or is
spent, and what was spent stays spent. Every operation leads to an
arena that follows the one before (`follows_insert`, `follows_remove`,
`follows_modify`), and the key of a new cell is not spent. So no key
ever names a second cell (`Follows.get?_insert_fst`).
-/

namespace SeparateChaining

theorem ArenaKey.eq_of_slot_of_generation {j k : ArenaKey} (hs : j.slot = k.slot)
    (hg : j.generation = k.generation) : j = k := by
  obtain ⟨s, g⟩ := j
  obtain rfl : s = k.slot := hs
  obtain rfl : g = k.generation := hg
  rfl

namespace Arena

variable {α β : Type}

/-! ## Look-up -/

theorem get?_of_slot {a : Arena α} {k : ArenaKey} {s : ArenaSlot α}
    (h : a.slots[k.slot]? = some s) :
    a.get? k = if s.generation = k.generation then s.cell else none := by
  simp only [get?, h]

theorem get?_of_no_slot {a : Arena α} {k : ArenaKey} (h : a.slots[k.slot]? = none) :
    a.get? k = none := by
  simp only [get?, h]

/-- Two arenas that agree on a slot agree on the keys of that slot. -/
theorem get?_congr {a : Arena α} {b : Arena α} {k : ArenaKey}
    (h : a.slots[k.slot]? = b.slots[k.slot]?) : a.get? k = b.get? k := by
  simp only [get?, h]

theorem contains_iff {a : Arena α} {k : ArenaKey} :
    a.contains k = true ↔ ∃ v, a.get? k = some v := by
  simp [contains, Option.isSome_iff_exists]

theorem insert_key (a : Arena α) (v : α) :
    (∃ g, a.slots[(a.insert v).1.slot]? = some ⟨g, none⟩ ∧ (a.insert v).1.generation = g)
      ∨ ((a.insert v).1.slot = a.slots.size ∧ (a.insert v).1.generation = 0) := by
  unfold insert
  split
  case h_1 i h =>
      obtain ⟨g, hg⟩ := (a.mem_free i).1 (Array.mem_of_back? h)
      exact Or.inl ⟨g, hg, by simp [hg]⟩
  case h_2 h => exact Or.inr ⟨rfl, rfl⟩

theorem insert_slots_self (a : Arena α) (v : α) :
    (a.insert v).2.slots[(a.insert v).1.slot]? = some ⟨(a.insert v).1.generation, some v⟩ := by
  unfold insert
  split
  case h_1 i h =>
      obtain ⟨g, hg⟩ := (a.mem_free i).1 (Array.mem_of_back? h)
      have hlt := (Array.getElem?_eq_some_iff.1 hg).1
      simp [hlt]
  case h_2 h => simp

theorem insert_slots_ne (a : Arena α) (v : α) {i : Nat} (h : i ≠ (a.insert v).1.slot) :
    (a.insert v).2.slots[i]? = a.slots[i]? := by
  revert h
  unfold insert
  split
  case h_1 j hj =>
      intro h
      exact Array.getElem?_setIfInBounds_ne (Ne.symm h)
  case h_2 hj =>
      intro h
      have hi : i ≠ a.slots.size := h
      simp [Array.getElem?_push, hi]

theorem get?_insert_fst (a : Arena α) (v : α) : a.get? (a.insert v).1 = none := by
  rcases insert_key a v with ⟨g, hg, -⟩ | ⟨hs, -⟩
  · rw [get?_of_slot hg]
    split <;> rfl
  · refine get?_of_no_slot ?_
    rw [hs, Array.getElem?_eq_none (Nat.le_refl _)]

@[simp] theorem get?_insert_self (a : Arena α) (v : α) :
    (a.insert v).2.get? (a.insert v).1 = some v :=
  get?_eq_some.2 (insert_slots_self a v)

theorem get?_insert_ne (a : Arena α) (v : α) {k : ArenaKey} (h : k ≠ (a.insert v).1) :
    (a.insert v).2.get? k = a.get? k := by
  by_cases hs : k.slot = (a.insert v).1.slot
  · have hgen : (a.insert v).1.generation ≠ k.generation := by
      intro hg
      exact h (ArenaKey.eq_of_slot_of_generation hs hg.symm)
    have hnew : (a.insert v).2.get? k = none := by
      have hslot := insert_slots_self a v
      rw [← hs] at hslot
      rw [get?_of_slot hslot, if_neg hgen]
    rw [hnew]
    rcases insert_key a v with ⟨g, hg, -⟩ | ⟨hsz, -⟩
    · rw [← hs] at hg
      rw [get?_of_slot hg]
      split <;> rfl
    · refine (get?_of_no_slot ?_).symm
      rw [hs, hsz, Array.getElem?_eq_none (Nat.le_refl _)]
  · exact get?_congr (insert_slots_ne a v hs)

theorem get?_insert (a : Arena α) (v : α) (k : ArenaKey) :
    (a.insert v).2.get? k = if k = (a.insert v).1 then some v else a.get? k := by
  by_cases h : k = (a.insert v).1
  · rw [if_pos h, h, get?_insert_self]
  · rw [if_neg h, get?_insert_ne a v h]

@[simp] theorem remove_fst (a : Arena α) (k : ArenaKey) : (a.remove k).1 = a.get? k := by
  unfold remove
  split
  case h_1 h => exact h.symm
  case h_2 v h => exact h.symm

theorem remove_of_none {a : Arena α} {k : ArenaKey} (h : a.get? k = none) :
    (a.remove k).2 = a := by
  unfold remove
  split
  case h_1 => rfl
  case h_2 v hv => rw [h] at hv; cases hv

theorem remove_slots_self {a : Arena α} {k : ArenaKey} {v : α} (h : a.get? k = some v) :
    (a.remove k).2.slots[k.slot]? = some ⟨k.generation + 1, none⟩ := by
  unfold remove
  split
  case h_1 hn => rw [h] at hn; cases hn
  case h_2 => simp [lt_of_get? h]

theorem remove_slots_ne (a : Arena α) {k : ArenaKey} {i : Nat} (hi : i ≠ k.slot) :
    (a.remove k).2.slots[i]? = a.slots[i]? := by
  unfold remove
  split
  case h_1 => rfl
  case h_2 => exact Array.getElem?_setIfInBounds_ne (Ne.symm hi)

theorem get?_remove (a : Arena α) (k j : ArenaKey) :
    (a.remove k).2.get? j = if j = k then none else a.get? j := by
  cases hk : a.get? k with
  | none =>
      rw [remove_of_none hk]
      by_cases h : j = k
      · rw [if_pos h, h, hk]
      · rw [if_neg h]
  | some v =>
      by_cases hs : j.slot = k.slot
      · have hslot := remove_slots_self hk
        rw [← hs] at hslot
        have hgone : (a.remove k).2.get? j = none := by
          rw [get?_of_slot hslot]
          split <;> rfl
        have hold := get?_eq_some.1 hk
        rw [← hs] at hold
        by_cases h : j = k
        · rw [if_pos h, hgone]
        · have hgen : k.generation ≠ j.generation := by
            intro hg
            exact h (ArenaKey.eq_of_slot_of_generation hs hg.symm)
          rw [if_neg h, hgone, get?_of_slot hold, if_neg hgen]
      · have h : j ≠ k := fun h => hs (by rw [h])
        rw [if_neg h]
        exact get?_congr (remove_slots_ne a hs)

theorem get?_remove_ne (a : Arena α) {k j : ArenaKey} (h : j ≠ k) :
    (a.remove k).2.get? j = a.get? j := by
  rw [get?_remove, if_neg h]

theorem modify_of_none {a : Arena α} {k : ArenaKey} {f : α → α} (h : a.get? k = none) :
    a.modify k f = a := by
  unfold modify
  split
  case h_1 => rfl
  case h_2 v hv => rw [h] at hv; cases hv

theorem modify_slots_self {a : Arena α} {k : ArenaKey} {f : α → α} {v : α}
    (h : a.get? k = some v) :
    (a.modify k f).slots[k.slot]? = some ⟨k.generation, some (f v)⟩ := by
  unfold modify
  split
  case h_1 hn => rw [h] at hn; cases hn
  case h_2 v' hv =>
      obtain rfl := Option.some.inj (h.symm.trans hv)
      simp [lt_of_get? h]

theorem modify_slots_ne (a : Arena α) {k : ArenaKey} {f : α → α} {i : Nat} (hi : i ≠ k.slot) :
    (a.modify k f).slots[i]? = a.slots[i]? := by
  unfold modify
  split
  case h_1 => rfl
  case h_2 => exact Array.getElem?_setIfInBounds_ne (Ne.symm hi)

theorem get?_modify (a : Arena α) (k j : ArenaKey) (f : α → α) :
    (a.modify k f).get? j = if j = k then (a.get? k).map f else a.get? j := by
  cases hk : a.get? k with
  | none =>
      rw [modify_of_none hk]
      by_cases h : j = k
      · rw [if_pos h, h, hk]; rfl
      · rw [if_neg h]
  | some v =>
      by_cases hs : j.slot = k.slot
      · have hslot := modify_slots_self (f := f) hk
        rw [← hs] at hslot
        have hold := get?_eq_some.1 hk
        rw [← hs] at hold
        by_cases h : j = k
        · rw [if_pos h, get?_of_slot hslot, h, if_pos rfl]; rfl
        · have hgen : k.generation ≠ j.generation := by
            intro hg
            exact h (ArenaKey.eq_of_slot_of_generation hs hg.symm)
          rw [if_neg h, get?_of_slot hslot, get?_of_slot hold, if_neg hgen, if_neg hgen]
      · have h : j ≠ k := fun h => hs (by rw [h])
        rw [if_neg h]
        exact get?_congr (modify_slots_ne a hs)

theorem get?_modify_ne (a : Arena α) {k j : ArenaKey} {f : α → α} (h : j ≠ k) :
    (a.modify k f).get? j = a.get? j := by
  rw [get?_modify, if_neg h]

theorem get?_modify_self (a : Arena α) (k : ArenaKey) (f : α → α) :
    (a.modify k f).get? k = (a.get? k).map f := by
  rw [get?_modify, if_pos rfl]

@[simp] theorem slots_size_modify (a : Arena α) (k : ArenaKey) (f : α → α) :
    (a.modify k f).slots.size = a.slots.size := by
  unfold modify
  split
  case h_1 => rfl
  case h_2 => simp

/-! ## Keys in use -/

theorem mem_keys {a : Arena α} {k : ArenaKey} : k ∈ a.keys ↔ ∃ v, a.get? k = some v := by
  simp only [keys, List.mem_filterMap, Option.map_eq_some_iff, get?_eq_some]
  constructor
  · rintro ⟨⟨s, i⟩, hmem, v, hv, rfl⟩
    have hs := List.mem_zipIdx_iff_getElem?.1 hmem
    obtain ⟨g, c⟩ := s
    obtain rfl : c = some v := hv
    exact ⟨v, by simpa using hs⟩
  · rintro ⟨v, hv⟩
    exact ⟨(⟨k.generation, some v⟩, k.slot),
      List.mem_zipIdx_iff_getElem?.2 (by simpa using hv), v, rfl, rfl⟩

/-- The slots of the keys ascend, so no key is listed twice. -/
theorem nodup_keys (a : Arena α) : a.keys.Nodup := by
  have hslots : (a.keys.map (·.slot)).Sublist (a.slots.toList.zipIdx.map (·.2)) := by
    unfold keys
    generalize a.slots.toList.zipIdx = l
    induction l with
    | nil => exact List.Sublist.refl _
    | cons s l ih =>
        obtain ⟨⟨g, c⟩, i⟩ := s
        cases c with
        | none => simpa using ih.cons i
        | some v => simpa using ih.cons_cons i
  have hrange : (a.slots.toList.zipIdx.map (·.2)).Nodup := by
    rw [List.zipIdx_map_snd]
    exact List.nodup_range'
  exact List.Nodup.of_map _ (hslots.nodup hrange)

/-- As many slots are vacant as the free stack is high: the vacant slots and the entries of the
stack are the same numbers, and neither list repeats one. -/
theorem countP_vacant (a : Arena α) :
    a.slots.toList.countP (·.cell.isNone) = a.free.size := by
  let vacant := (a.slots.toList.zipIdx.filter (·.1.cell.isNone)).map (·.2)
  have hnodup : vacant.Nodup := by
    have hsub : vacant.Sublist (a.slots.toList.zipIdx.map (·.2)) := List.filter_sublist.map _
    rw [List.zipIdx_map_snd] at hsub
    exact hsub.nodup List.nodup_range'
  have hmem : ∀ i, i ∈ a.free.toList ↔ i ∈ vacant := by
    intro i
    rw [Array.mem_toList_iff, a.mem_free]
    simp only [vacant, List.mem_map, List.mem_filter, Prod.exists, exists_eq_right,
      List.mem_zipIdx_iff_getElem?, Array.getElem?_toList]
    constructor
    · rintro ⟨g, hg⟩
      exact ⟨_, hg, rfl⟩
    · rintro ⟨⟨g, c⟩, hs, hc⟩
      cases c with
      | none => exact ⟨g, hs⟩
      | some v => cases hc
  have hperm := (List.perm_ext_iff_of_nodup a.free_nodup hnodup).2 hmem
  calc a.slots.toList.countP (·.cell.isNone)
      = (a.slots.toList.zipIdx.map (·.1)).countP (·.cell.isNone) := by rw [List.zipIdx_map_fst]
    _ = vacant.length := by
        rw [List.countP_map, List.length_map, List.countP_eq_length_filter]; rfl
    _ = a.free.size := by rw [← hperm.length_eq, Array.length_toList]

theorem length_keys (a : Arena α) : a.keys.length = a.size := by
  have hlive : a.keys.length = a.slots.toList.countP (fun s => !s.cell.isNone) := by
    rw [keys, List.length_filterMap_eq_countP]
    conv => rhs; rw [← List.zipIdx_map_fst 0 a.slots.toList, List.countP_map]
    congr 1
    funext ⟨s, i⟩
    cases h : s.cell <;> simp [h]
  have hall := List.length_eq_countP_add_countP (l := a.slots.toList) (·.cell.isNone)
  rw [countP_vacant, Array.length_toList] at hall
  have hnot : a.slots.toList.countP (fun s => decide ¬s.cell.isNone = true) = a.keys.length := by
    rw [hlive]
    congr 1
    funext s
    cases s.cell <;> simp
  rw [hnot] at hall
  rw [size]
  omega

theorem size_le_slots (a : Arena α) : a.size ≤ a.slots.size := Nat.sub_le ..

/-- Keys of cells, each listed once, are no more than the cells. -/
theorem length_le_size {a : Arena α} {ks : List ArenaKey} (hnd : ks.Nodup)
    (hlive : ∀ k ∈ ks, ∃ v, a.get? k = some v) : ks.length ≤ a.size := by
  rw [← length_keys]
  exact (List.subperm_of_subset hnd fun k hk => mem_keys.2 (hlive k hk)).length_le

theorem length_le_slots {a : Arena α} {ks : List ArenaKey} (hnd : ks.Nodup)
    (hlive : ∀ k ∈ ks, ∃ v, a.get? k = some v) : ks.length ≤ a.slots.size :=
  Nat.le_trans (length_le_size hnd hlive) a.size_le_slots

/-- So many different keys of cells are all there are. -/
theorem mem_of_length_eq {a : Arena α} {ks : List ArenaKey} (hnd : ks.Nodup)
    (hlive : ∀ k ∈ ks, ∃ v, a.get? k = some v) (hlength : ks.length = a.size) {k : ArenaKey}
    {v : α} (hk : a.get? k = some v) : k ∈ ks := by
  have hsub := List.subperm_of_subset hnd fun k hk => mem_keys.2 (hlive k hk)
  have hle : a.keys.length ≤ ks.length := Nat.le_of_eq (a.length_keys.trans hlength.symm)
  exact (hsub.perm_of_length_le hle).mem_iff.2 (mem_keys.2 ⟨v, hk⟩)

/-- An arena that holds cells under exactly the keys listed, each once, has as many cells. -/
theorem size_eq_length {a : Arena α} {ks : List ArenaKey} (hnd : ks.Nodup)
    (hiff : ∀ k, k ∈ ks ↔ ∃ v, a.get? k = some v) : a.size = ks.length := by
  rw [← length_keys]
  refine ((List.perm_ext_iff_of_nodup a.nodup_keys hnd).2 fun k => ?_).length_eq
  rw [mem_keys, hiff]

/-- The size counts the keys, so arenas with the same keys have the same size. -/
theorem size_congr {a : Arena α} {b : Arena β}
    (h : ∀ k, (a.get? k).isSome = (b.get? k).isSome) : a.size = b.size := by
  rw [← length_keys b]
  refine size_eq_length b.nodup_keys ?_
  intro k
  rw [mem_keys, ← Option.isSome_iff_exists, ← Option.isSome_iff_exists, h]

theorem size_insert (a : Arena α) (v : α) : (a.insert v).2.size = a.size + 1 := by
  rw [← length_keys a, ← List.length_cons (a := (a.insert v).1)]
  refine size_eq_length (List.nodup_cons.2 ⟨fun hmem => ?_, a.nodup_keys⟩) fun k => ?_
  · obtain ⟨v', hv'⟩ := mem_keys.1 hmem
    rw [get?_insert_fst] at hv'
    cases hv'
  · rw [List.mem_cons, mem_keys, get?_insert]
    by_cases h : k = (a.insert v).1 <;> simp [h]

theorem size_remove {a : Arena α} {k : ArenaKey} {v : α} (h : a.get? k = some v) :
    (a.remove k).2.size + 1 = a.size := by
  have hmem : k ∈ a.keys := mem_keys.2 ⟨v, h⟩
  have herase : (a.remove k).2.size = (a.keys.erase k).length := by
    refine size_eq_length (a.nodup_keys.erase k) ?_
    intro j
    rw [a.nodup_keys.mem_erase_iff, mem_keys, get?_remove]
    by_cases hj : j = k <;> simp [hj]
  rw [herase, List.length_erase_of_mem hmem, length_keys]
  have hpos := List.length_pos_of_mem hmem
  rw [length_keys] at hpos
  omega

@[simp] theorem size_modify (a : Arena α) (k : ArenaKey) (f : α → α) :
    (a.modify k f).size = a.size := by
  refine size_congr ?_
  intro j
  rw [get?_modify]
  by_cases h : j = k <;> simp [h]

/-! ## Refilling -/

theorem refillSlots_getElem? (f : α → β → α) (ss : List (ArenaSlot α)) (bs : List β) (i : Nat) :
    ∀ s, ss[i]? = some s → ∃ c, (refillSlots f ss bs)[i]? = some ⟨s.generation, c⟩
      ∧ c.isSome = s.cell.isSome
      ∧ ∀ w, c = some w → ∃ v, s.cell = some v ∧ (w = v ∨ ∃ b ∈ bs, w = f v b) := by
  fun_induction refillSlots f ss bs generalizing i with
  | case1 => simp
  | case2 g ss bs ih =>
      intro s hs
      cases i with
      | zero =>
          obtain rfl := Option.some.inj hs
          exact ⟨none, rfl, rfl, by simp⟩
      | succ i => exact ih i s hs
  | case3 g v ss b bs ih =>
      intro s hs
      cases i with
      | zero =>
          obtain rfl := Option.some.inj hs
          exact ⟨some (f v b), rfl, rfl, fun w hw =>
            ⟨v, rfl, Or.inr ⟨b, List.mem_cons_self .., (Option.some.inj hw).symm⟩⟩⟩
      | succ i =>
          obtain ⟨c, hc, hsome, hval⟩ := ih i s hs
          refine ⟨c, hc, hsome, fun w hw => ?_⟩
          obtain ⟨u, hu, hw⟩ := hval w hw
          refine ⟨u, hu, hw.imp_right ?_⟩
          rintro ⟨b', hb', he⟩
          exact ⟨b', List.mem_cons_of_mem _ hb', he⟩
  | case4 s ss =>
      intro s' hs'
      exact ⟨s'.cell, hs', rfl, fun w hw => ⟨w, hw, Or.inl rfl⟩⟩

theorem length_refillSlots (f : α → β → α) (ss : List (ArenaSlot α)) (bs : List β) :
    (refillSlots f ss bs).length = ss.length := by
  fun_induction refillSlots f ss bs with
  | case1 => rfl
  | case2 g ss bs ih => rw [List.length_cons, List.length_cons, ih]
  | case3 g v ss b bs ih => rw [List.length_cons, List.length_cons, ih]
  | case4 => rfl

/-- A refilled arena has the keys of the old one, and under each what `f` made of the old cell. -/
theorem get?_refill {a : Arena α} {f : α → β → α} {bs : List β} (k : ArenaKey) :
    ((a.refill f bs).get? k).isSome = (a.get? k).isSome
      ∧ ∀ w, (a.refill f bs).get? k = some w →
        ∃ v, a.get? k = some v ∧ (w = v ∨ ∃ b ∈ bs, w = f v b) := by
  have hslot : (a.refill f bs).slots[k.slot]? = (refillSlots f a.slots.toList bs)[k.slot]? := by
    simp [refill]
  cases hs : a.slots[k.slot]? with
  | none =>
      have hsize : (refillSlots f a.slots.toList bs)[k.slot]? = none := by
        rw [List.getElem?_eq_none_iff, length_refillSlots]
        simpa using Array.getElem?_eq_none_iff.1 hs
      rw [get?_of_no_slot (hslot.trans hsize), get?_of_no_slot hs]
      simp
  | some s =>
      obtain ⟨c, hc, hsome, hval⟩ :=
        refillSlots_getElem? f a.slots.toList bs k.slot s (by simpa using hs)
      rw [get?_of_slot (hslot.trans hc), get?_of_slot hs]
      by_cases hg : s.generation = k.generation
      · rw [if_pos hg, if_pos hg]
        exact ⟨hsome, hval⟩
      · rw [if_neg hg, if_neg hg]
        simp

/-- Slots refilled from a list that is related to their cells, entry by entry. -/
theorem refillSlots_of_forall₂ {R : α → β → Prop} (f : α → β → α) {ss : List (ArenaSlot α)}
    {bs : List β} (h : List.Forall₂ R (ss.filterMap (·.cell)) bs) {i : Nat} {g : Nat} {v : α}
    (hs : ss[i]? = some ⟨g, some v⟩) :
    ∃ b, R v b ∧ (refillSlots f ss bs)[i]? = some ⟨g, some (f v b)⟩ := by
  fun_induction refillSlots f ss bs generalizing i with
  | case1 => simp at hs
  | case2 g' ss bs ih =>
      cases i with
      | zero => simp at hs
      | succ i => exact ih h hs
  | case3 g' u ss b bs ih =>
      obtain ⟨hub, hrest⟩ := List.forall₂_cons.1 h
      cases i with
      | zero =>
          cases hs
          exact ⟨b, hub, rfl⟩
      | succ i => exact ih hrest hs
  | case4 s ss hvacant =>
      obtain ⟨g', c⟩ := s
      cases c with
      | none => exact absurd rfl (hvacant g')
      | some u => cases h

/-- Under the name of a cell a refilled arena has what `f` made of it and of its entry. -/
theorem get?_refill_of_forall₂ {R : α → β → Prop} {a : Arena α} {bs : List β}
    (h : List.Forall₂ R a.toList bs) (f : α → β → α) {k : ArenaKey} {v : α}
    (hv : a.get? k = some v) : ∃ b, R v b ∧ (a.refill f bs).get? k = some (f v b) := by
  have hslot : a.slots.toList[k.slot]? = some ⟨k.generation, some v⟩ := by
    simpa using get?_eq_some.1 hv
  obtain ⟨b, hb, hfilled⟩ := refillSlots_of_forall₂ f h hslot
  refine ⟨b, hb, get?_eq_some.2 ?_⟩
  simpa [refill] using hfilled

theorem size_refill (a : Arena α) (f : α → β → α) (bs : List β) :
    (a.refill f bs).size = a.size :=
  size_congr fun k => (get?_refill k).1

/-! ## Ageing -/

/-- The slot of `k` has moved past `k`'s generation: its cell was removed. -/
def Spent (a : Arena α) (k : ArenaKey) : Prop :=
  ∃ s, a.slots[k.slot]? = some s ∧ k.generation < s.generation

theorem Spent.get? {a : Arena α} {k : ArenaKey} (h : a.Spent k) : a.get? k = none := by
  obtain ⟨s, hs, hlt⟩ := h
  rw [get?_of_slot hs, if_neg (Nat.ne_of_gt hlt)]

theorem spent_congr {a b : Arena α} {k : ArenaKey} (h : a.slots[k.slot]? = b.slots[k.slot]?) :
    a.Spent k ↔ b.Spent k := by
  unfold Spent
  rw [h]

/-- The arena `b` comes after `a` in the life of one arena. -/
structure Follows (a b : Arena α) : Prop where
  live : ∀ k, (a.get? k).isSome → (b.get? k).isSome ∨ b.Spent k
  spent : ∀ k, a.Spent k → b.Spent k

theorem Follows.refl (a : Arena α) : Follows a a :=
  ⟨fun _ h => Or.inl h, fun _ h => h⟩

theorem Follows.trans {a b c : Arena α} (hab : Follows a b) (hbc : Follows b c) :
    Follows a c where
  live k h := (hab.live k h).elim (hbc.live k) fun hs => Or.inr (hbc.spent k hs)
  spent k h := hbc.spent k (hab.spent k h)

theorem not_spent_insert (a : Arena α) (v : α) : ¬a.Spent (a.insert v).1 := by
  rintro ⟨s, hs, hlt⟩
  rcases insert_key a v with ⟨g, hg, hgen⟩ | ⟨hslot, -⟩
  · obtain rfl := Option.some.inj (hs.symm.trans hg)
    exact absurd hlt (by rw [hgen]; exact Nat.lt_irrefl _)
  · rw [hslot, Array.getElem?_eq_none (Nat.le_refl _)] at hs
    cases hs

theorem spent_remove {a : Arena α} {k : ArenaKey} {v : α} (h : a.get? k = some v) :
    (a.remove k).2.Spent k :=
  ⟨_, remove_slots_self h, Nat.lt_succ_self _⟩

theorem follows_insert (a : Arena α) (v : α) : Follows a (a.insert v).2 where
  live k h := by
    refine Or.inl ?_
    rw [get?_insert]
    by_cases hk : k = (a.insert v).1
    · rw [if_pos hk]; rfl
    · rw [if_neg hk]; exact h
  spent k h := by
    obtain ⟨s, hs, hlt⟩ := h
    by_cases hk : k.slot = (a.insert v).1.slot
    · rcases insert_key a v with ⟨g, hg, hgen⟩ | ⟨hslot, -⟩
      · rw [← hk] at hg
        obtain rfl := Option.some.inj (hs.symm.trans hg)
        refine ⟨_, hk ▸ insert_slots_self a v, ?_⟩
        rw [hgen]
        exact hlt
      · rw [hk, hslot, Array.getElem?_eq_none (Nat.le_refl _)] at hs
        cases hs
    · exact (spent_congr (insert_slots_ne a v hk)).2 ⟨s, hs, hlt⟩

theorem follows_remove (a : Arena α) (k : ArenaKey) : Follows a (a.remove k).2 := by
  cases hk : a.get? k with
  | none =>
      rw [remove_of_none hk]
      exact Follows.refl a
  | some v =>
      refine ⟨fun j hj => ?_, fun j hj => ?_⟩
      · by_cases h : j = k
        · rw [h]
          exact Or.inr (spent_remove hk)
        · exact Or.inl (by rw [get?_remove_ne a h]; exact hj)
      · by_cases h : j.slot = k.slot
        · obtain ⟨s, hs, hlt⟩ := hj
          rw [h, get?_eq_some.1 hk] at hs
          obtain rfl := Option.some.inj hs
          exact ⟨_, h ▸ remove_slots_self hk, Nat.lt_succ_of_lt hlt⟩
        · exact (spent_congr (remove_slots_ne a h)).2 hj

theorem follows_modify (a : Arena α) (k : ArenaKey) (f : α → α) : Follows a (a.modify k f) where
  live j h := by
    refine Or.inl ?_
    rw [get?_modify]
    by_cases hj : j = k
    · rw [if_pos hj, Option.isSome_map, ← hj]; exact h
    · rw [if_neg hj]; exact h
  spent j h := by
    obtain ⟨s, hs, hlt⟩ := h
    cases hk : a.get? k with
    | none => rw [modify_of_none hk]; exact ⟨s, hs, hlt⟩
    | some v =>
        by_cases hj : j.slot = k.slot
        · rw [hj, get?_eq_some.1 hk] at hs
          obtain rfl := Option.some.inj hs
          exact ⟨⟨k.generation, some (f v)⟩, hj ▸ modify_slots_self hk, hlt⟩
        · exact (spent_congr (modify_slots_ne a hj)).2 ⟨s, hs, hlt⟩

/-- The key of a new cell named nothing in any earlier arena. -/
theorem Follows.get?_insert_fst {a b : Arena α} (h : Follows a b) (v : α) :
    a.get? (b.insert v).1 = none := by
  cases ha : a.get? (b.insert v).1 with
  | none => rfl
  | some w =>
      rcases h.live _ (by rw [ha]; rfl) with hlive | hspent
      · rw [Arena.get?_insert_fst] at hlive
        cases hlive
      · exact absurd hspent (not_spent_insert b v)

end Arena

end SeparateChaining
