/-!
# A generational arena

Cells live in numbered slots that are reused after their cell is removed. A key names a slot
together with the slot's generation, and removing a cell moves its slot to the next generation:
a key of a removed cell never resolves again, whatever is put into the slot later.

The vacant slots are exactly the entries of the free stack, each once, so the number of cells is
the number of slots less the height of the stack (`size`). `room` is the number of cells that fit
before the slots themselves need more memory; it grows by doubling and never shrinks.

The arena stands for `slotmap` and leaves out two limits of it: a slot map holds at most 2^32 - 2
cells, and its generations are 32-bit versions, which come round when a slot has been reused often
enough. Here slots and generations are numbers without a bound.
-/

namespace SeparateChaining

/-- Names one cell of an arena for as long as that cell lives. -/
structure ArenaKey where
  slot : Nat
  generation : Nat
  deriving DecidableEq, Repr, Hashable

structure ArenaSlot (α : Type) where
  generation : Nat
  cell : Option α
  deriving Repr

structure Arena (α : Type) where
  slots : Array (ArenaSlot α)
  /-- Vacant slots, the next one to be used last. -/
  free : Array Nat
  room : Nat
  free_nodup : free.toList.Nodup
  mem_free : ∀ i, i ∈ free ↔ ∃ g, slots[i]? = some ⟨g, none⟩

namespace Arena

variable {α : Type}

/-- The arena with no slots. -/
def empty : Arena α where
  slots := #[]
  free := #[]
  room := 0
  free_nodup := by simp
  mem_free := by simp

instance : Inhabited (Arena α) := ⟨empty⟩

/-- The number of cells. -/
def size (a : Arena α) : Nat := a.slots.size - a.free.size

@[inline] def get? (a : Arena α) (k : ArenaKey) : Option α :=
  match a.slots[k.slot]? with
  | some s => if s.generation = k.generation then s.cell else none
  | none => none

def contains (a : Arena α) (k : ArenaKey) : Bool := (a.get? k).isSome

/-- The cells in the order of their slots. -/
def toList (a : Arena α) : List α := a.slots.toList.filterMap (·.cell)

/-- The keys that name cells, in the order of their slots. -/
def keys (a : Arena α) : List ArenaKey :=
  a.slots.toList.zipIdx.filterMap fun (s, i) => s.cell.map fun _ => ⟨i, s.generation⟩

/-- Whether one more cell needs more memory for slots. -/
def isFull (a : Arena α) : Bool := a.free.isEmpty && a.room ≤ a.slots.size

/-- The room that a full arena grows to: twice its slots and the one beside them, and at least
four with that one. -/
def grownRoom (a : Arena α) : Nat := max 3 (2 * a.room + 1)

theorem get?_eq_some {a : Arena α} {k : ArenaKey} {v : α} :
    a.get? k = some v ↔ a.slots[k.slot]? = some ⟨k.generation, some v⟩ := by
  unfold get?
  cases a.slots[k.slot]? with
  | none => simp
  | some s =>
    obtain ⟨g, c⟩ := s
    by_cases h : g = k.generation <;> simp [h]

theorem lt_of_get? {a : Arena α} {k : ArenaKey} {v : α} (h : a.get? k = some v) :
    k.slot < a.slots.size :=
  (Array.getElem?_eq_some_iff.1 (get?_eq_some.1 h)).1

/-- Overwriting a vacant slot by a cell takes it off the top of the stack. -/
private theorem mem_pop_iff {slots : Array (ArenaSlot α)} {free : Array Nat} {i g : Nat} {v : α}
    (nodup : free.toList.Nodup) (mem : ∀ i, i ∈ free ↔ ∃ g, slots[i]? = some ⟨g, none⟩)
    (top : free.back? = some i) (j : Nat) :
    j ∈ free.pop ↔ ∃ g', (slots.setIfInBounds i ⟨g, some v⟩)[j]? = some ⟨g', none⟩ := by
  obtain ⟨xs, rfl⟩ := Array.back?_eq_some_iff.1 top
  have hi := (mem i).1 (by simp)
  obtain ⟨_, hi⟩ := hi
  have hlt := (Array.getElem?_eq_some_iff.1 hi).1
  have hni : i ∉ xs := by
    intro h
    simp only [Array.toList_push, List.nodup_append] at nodup
    exact nodup.2.2 i (by simpa using h) i (by simp) rfl
  by_cases hj : i = j
  · subst hj
    simp [Array.pop_push, hni, hlt]
  · have := mem j
    simp only [Array.mem_push, Ne.symm hj, or_false] at this
    simp [Array.pop_push, this, Array.getElem?_setIfInBounds_ne hj]

/-- Puts a cell into the slot on top of the free stack, or into a new slot. -/
def insert (a : Arena α) (v : α) : ArenaKey × Arena α :=
  match h : a.free.back? with
  | some i =>
    let g := (a.slots[i]?.map (·.generation)).getD 0
    (⟨i, g⟩,
      { a with
        slots := a.slots.setIfInBounds i ⟨g, some v⟩
        free := a.free.pop
        free_nodup := by
          simpa using a.free_nodup.sublist (List.dropLast_sublist _)
        mem_free := mem_pop_iff a.free_nodup a.mem_free h })
  | none =>
    let room := if a.isFull then a.grownRoom else a.room
    (⟨a.slots.size, 0⟩,
      { a with
        room
        slots := a.slots.push ⟨0, some v⟩
        mem_free := fun i => by
          rw [a.mem_free, Array.getElem?_push]
          by_cases hi : i = a.slots.size
          · simp [hi]
          · simp [hi] })

/-- Removes the cell named by `k`, if there is one, and hands it back. -/
def remove (a : Arena α) (k : ArenaKey) : Option α × Arena α :=
  match h : a.get? k with
  | none => (none, a)
  | some v =>
    (some v,
      { a with
        slots := a.slots.setIfInBounds k.slot ⟨k.generation + 1, none⟩
        free := a.free.push k.slot
        free_nodup := by
          have : k.slot ∉ a.free := by
            rw [a.mem_free, get?_eq_some.1 h]; simp
          simp only [Array.toList_push, List.nodup_append, a.free_nodup, true_and]
          refine ⟨by simp, fun i hi j hj => ?_⟩
          rw [List.mem_singleton.1 hj]
          rintro rfl
          exact this (by simpa using hi)
        mem_free := fun i => by
          have hlt := lt_of_get? h
          by_cases hi : k.slot = i
          · subst hi; simp [hlt]
          · simp [Array.getElem?_setIfInBounds_ne hi, ← a.mem_free, Ne.symm hi] })

/-- Replaces the cell named by `k` by `f` of it. -/
def modify (a : Arena α) (k : ArenaKey) (f : α → α) : Arena α :=
  match h : a.get? k with
  | none => a
  | some v =>
    { a with
      slots := a.slots.setIfInBounds k.slot ⟨k.generation, some (f v)⟩
      mem_free := fun i => by
        have hlt := lt_of_get? h
        by_cases hi : k.slot = i
        · subst hi
          rw [a.mem_free, get?_eq_some.1 h]
          simp [hlt]
        · simp [a.mem_free, Array.getElem?_setIfInBounds_ne hi] }

/-- The cells of `slots` combined in order with the entries of a list, for as long as there are
entries. -/
def refillSlots (f : α → β → α) : List (ArenaSlot α) → List β → List (ArenaSlot α)
  | [], _ => []
  | ⟨g, none⟩ :: ss, bs => ⟨g, none⟩ :: refillSlots f ss bs
  | ⟨g, some v⟩ :: ss, b :: bs => ⟨g, some (f v b)⟩ :: refillSlots f ss bs
  | s :: ss, [] => s :: ss

theorem vacant_refillSlots (f : α → β → α) (ss : List (ArenaSlot α)) (bs : List β) (i : Nat) :
    (∃ g, (refillSlots f ss bs)[i]? = some ⟨g, none⟩) ↔ ∃ g, ss[i]? = some ⟨g, none⟩ := by
  fun_induction refillSlots f ss bs generalizing i with
  | case1 => simp
  | case2 _ _ _ ih | case3 _ _ _ _ _ ih => cases i <;> simp [ih]
  | case4 => simp

/-- A copy with the same keys, whose cells are those of `a` combined in the order of their slots
with the entries of `bs`. Its slots fill its room exactly. -/
def refill (a : Arena α) (f : α → β → α) (bs : List β) : Arena α where
  slots := (refillSlots f a.slots.toList bs).toArray
  free := a.free
  room := a.slots.size
  free_nodup := a.free_nodup
  mem_free i := by
    simpa [a.mem_free] using (vacant_refillSlots f a.slots.toList bs i).symm

end Arena

end SeparateChaining
