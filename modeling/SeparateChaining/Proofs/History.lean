import SeparateChaining.Proofs.Run
import SeparateChaining.Proofs.Values

/-!
# What becomes of an element

The history of one element of one table, from a moment at which it is
held under a key. The table only goes on to tables `Later` than it is,
and at every later moment one of two things is the case. Either the
element is still held, with the value that the edits made of it, or some
action has removed it, and its key is spent (`history_after`). What
removes an element is a command that set out to take it out and came to
it (`Store.Removes`).
-/

namespace SeparateChaining

variable {V K W : Type}

namespace Store

variable {env : Environment V K W} {s : Store V W} {i : Nat} {t t' : Table V} {k : ArenaKey} {v : V}

/-- The value of the element that `k` names in the table in place `i`. -/
def value? (s : Store V W) (i : Nat) (k : ArenaKey) : Option V := (s.table? i).bind (·.value? k)

theorem value?_eq (ht : s.table? i = some t) (k : ArenaKey) : s.value? i k = t.value? k := by
  rw [value?, ht]
  rfl

/-- What an action makes of the value of the element that `k` names in the table in place `i`. -/
def edit (s : Store V W) (i : Nat) (k : ArenaKey) (a : Action V K) (v : V) : V :=
  match a, s.table? i with
  | .on j cmd, some t => if j = i then cmd.edit t k v else v
  | _, _ => v

theorem edit_on (ht : s.table? i = some t) (cmd : Command V K) :
    s.edit i k (.on i cmd) v = cmd.edit t k v := by
  unfold edit
  simp only [ht, if_true]

theorem edit_elsewhere {a : Action V K} (h : ∀ cmd, a ≠ .on i cmd) : s.edit i k a v = v := by
  unfold edit
  split
  · rename_i j cmd t ht
    refine if_neg ?_
    rintro rfl
    exact h cmd rfl
  · rfl

/-- What the actions of a run make of it, one after the other. -/
def edited (env : Environment V K W) (s : Store V W) (i : Nat) (k : ArenaKey) :
    List (Action V K) → V → V
  | [], v => v
  | a :: acts, v => edited env (s.step env a) i k acts (s.edit i k a v)

/-- The action is a command on the table in place `i` that sets out to take out the element that `k`
names, and comes to it. -/
def Removes (env : Environment V K W) (s : Store V W) (i : Nat) (k : ArenaKey) (a : Action V K) :
    Prop :=
  ∃ cmd t, a = .on i cmd ∧ s.table? i = some t
    ∧ k ∈ Chains.keysOf (cmd.targets env s.world t) ∧ (s.step env a).value? i k = none

/-- At some action of the run, `P` holds of the store that it finds and of the action. -/
def Happens (env : Environment V K W) (P : Store V W → Action V K → Prop) (s : Store V W)
    (acts : List (Action V K)) : Prop :=
  ∃ xs a ys, acts = xs ++ a :: ys ∧ P (s.after env xs) a

theorem not_happens_nil {P : Store V W → Action V K → Prop} : ¬s.Happens env P [] := by
  rintro ⟨xs, a, ys, hsplit, -⟩
  cases xs with
  | nil => cases hsplit
  | cons x xs => cases hsplit

theorem happens_cons {P : Store V W → Action V K → Prop} {a : Action V K}
    {acts : List (Action V K)} :
    s.Happens env P (a :: acts) ↔ P s a ∨ (s.step env a).Happens env P acts := by
  constructor
  · rintro ⟨xs, b, ys, hsplit, hb⟩
    cases xs with
    | nil =>
        obtain ⟨rfl, rfl⟩ := List.cons.inj hsplit
        exact Or.inl hb
    | cons x xs =>
        obtain ⟨rfl, rfl⟩ := List.cons.inj hsplit
        exact Or.inr ⟨xs, b, ys, rfl, hb⟩
  · rintro (hb | ⟨xs, b, ys, rfl, hb⟩)
    · exact ⟨[], a, acts, rfl, hb⟩
    · exact ⟨a :: xs, b, ys, rfl, hb⟩

/-- Some action of the run removes the element. -/
def Removed (env : Environment V K W) (s : Store V W) (i : Nat) (k : ArenaKey) :
    List (Action V K) → Prop :=
  s.Happens env fun s a => s.Removes env i k a

/-- One action leads to a later table, and leaves an element with the value that it makes of it or
removes it. -/
theorem history_step (h : s.Sound) {a : Action V K} (ht : s.table? i = some t)
    (ht' : (s.step env a).table? i = some t') :
    t.Later t' ∧ ∀ k v, t.value? k = some v → t'.value? k = some (s.edit i k a v)
      ∨ (s.Removes env i k a ∧ t'.chains.nodes.Spent k) := by
  rcases eq_or_left_of_step h ht ht' with ⟨elsewhere, rfl⟩ | ⟨cmd, rfl, rfl⟩
  · refine ⟨.refl t', fun k v hk => Or.inl ?_⟩
    rw [edit_elsewhere elsewhere]
    exact hk
  · have hsound := (h.table i t ht).1
    have htakes := Command.takes_left env cmd t s.world
    refine ⟨(htakes.changes hsound).1.later, fun k v hk => ?_⟩
    rw [edit_on ht]
    rcases Command.value?_left hsound env cmd s.world hk with hv | ⟨htarget, hspent⟩
    · exact Or.inl hv
    · refine Or.inr ⟨⟨cmd, t, rfl, ht, htarget, ?_⟩, hspent⟩
      rw [value?_eq ht', Table.value?_of_spent hspent]

/-- A table that is in its place after a run was there all the time. -/
theorem table?_of_after (h : s.Sound) {acts : List (Action V K)} (hi : i < s.tables.size)
    (ht' : (s.after env acts).table? i = some t') : ∃ t, s.table? i = some t := by
  induction acts generalizing s with
  | nil => exact ⟨t', ht'⟩
  | cons a acts ih =>
      obtain ⟨n, hsize, -⟩ := size_step h env a
      obtain ⟨t, ht⟩ := ih (h.step env a) (by omega) ht'
      cases table?_step h ht with
      | stays elsewhere before => exact ⟨t, before⟩
      | taken action before takes => exact ⟨_, before⟩
      | created action here made => exact absurd here (Nat.ne_of_lt hi)
      | copied action before here made copies => exact absurd here (Nat.ne_of_lt hi)

/-- The history of an element: over a run it is edited, or it is removed and never comes back. -/
theorem history_after (env : Environment V K W) (h : s.Sound) {acts : List (Action V K)}
    (ht : s.table? i = some t) (ht' : (s.after env acts).table? i = some t') :
    t.Later t' ∧ ∀ k v, t.value? k = some v →
      (t'.value? k = some (s.edited env i k acts v) ∧ ¬s.Removed env i k acts)
        ∨ (t'.chains.nodes.Spent k ∧ s.Removed env i k acts) := by
  induction acts generalizing s t with
  | nil =>
      obtain rfl := Option.some.inj (ht.symm.trans ht')
      exact ⟨.refl t, fun k v hk => Or.inl ⟨hk, not_happens_nil⟩⟩
  | cons a acts ih =>
      have hsound := h.step env a
      obtain ⟨n, hsize, -⟩ := size_step h env a
      have hlt := lt_of_table? ht
      obtain ⟨t₁, ht₁⟩ := table?_of_after hsound (by omega) ht'
      obtain ⟨hlater, hvalue⟩ := history_step h ht ht₁
      obtain ⟨hlater', hvalue'⟩ := ih hsound ht₁ ht'
      refine ⟨hlater.trans hlater', fun k v hk => ?_⟩
      rcases hvalue k v hk with hv | ⟨hremoves, hspent⟩
      · have hkept : ¬s.Removes env i k a := by
          rintro ⟨cmd, t₀, -, -, -, hnone⟩
          rw [value?_eq ht₁, hv] at hnone
          cases hnone
        rcases hvalue' k _ hv with ⟨hv', hnot⟩ | ⟨hspent, hremoved⟩
        · refine Or.inl ⟨hv', fun hremoved => ?_⟩
          exact (happens_cons.1 hremoved).elim hkept hnot
        · exact Or.inr ⟨hspent, happens_cons.2 (Or.inr hremoved)⟩
      · exact Or.inr ⟨hlater'.follows.spent k hspent, happens_cons.2 (Or.inl hremoves)⟩

end Store

end SeparateChaining
