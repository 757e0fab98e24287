import SeparateChaining.Proofs.Simulation
import SeparateChaining.Proofs.Verdict

/-!
# Every reachable table under coherent policies

The laws of the single changes, carried along runs of a store. A table
comes to be where it is in one of four ways (`Origin`): it stays, a
command made it of the one before, it was created, or it was copied. In
each of them it is regular if all tables before it were, as long as no
edit changes a key and copies keep the keys of their originals. Storage
may be refused and foreign code may panic at any point of the run. What
regular tables have in common is then read off: cached hashes, where
elements with equal keys stand, and what the check answers.
-/

namespace SeparateChaining

variable {V K W : Type}

/-- Whether an action may link a value beside its equals. -/
def Action.isInsertAny : Action V K → Bool
  | .on _ cmd => cmd.isInsertAny
  | _ => false

/-- In the traversal the values with the key `q` are one stretch. -/
def Table.OneStretch (p : Policies V K) (t : Table V) (q : K) : Prop :=
  ∃ xs ms ys, t.values = xs ++ (ms ++ ys) ∧ (∀ v ∈ xs, p.hasKey q v = false)
    ∧ (∀ v ∈ ms, p.hasKey q v = true) ∧ ∀ v ∈ ys, p.hasKey q v = false

theorem Table.Keyed.oneStretch {p : Policies V K} {t : Table V} (h : t.Keyed p) (hp : p.Coherent)
    (hwf : t.chains.WellFormed) (q : K) : t.OneStretch p q := by
  refine Grouped.split ((h.grouped_elements hp hwf q).of_map_eq ?_)
  rw [Table.values, ← Chains.map_value_elements, List.map_map]
  rfl

/-- Numbers are equal if they end in the same digit, and every two digits share a hash. -/
def Policies.sharedHash : Policies Nat Nat where
  extract := id
  hash k := (k % 5).toUInt64
  keyEq a b := a % 10 == b % 10

theorem Policies.coherent_sharedHash : sharedHash.Coherent :=
  .of_iff (· % 10) (fun _ _ => beq_iff_eq) fun a b (hdigit : a % 10 = b % 10) =>
    congrArg Nat.toUInt64 (show a % 5 = b % 5 by omega)

namespace Store

variable {env : Environment V K W} {p : Policies V K} {s : Store V W} {unique : Bool}

/-- An action that replaces a value does not change its key. -/
def KeepsKeys (p : Policies V K) (s : Store V W) : Action V K → Prop
  | .on i cmd => ∀ t, s.table? i = some t → cmd.KeepsKeys p t
  | _ => True

/-- Along a run no key is changed. -/
def KeysKept (env : Environment V K W) (p : Policies V K) : List (Action V K) → Store V W → Prop
  | [], _ => True
  | a :: acts, s => s.KeepsKeys p a ∧ KeysKept env p acts (s.step env a)

/-- Every table is regular. -/
def Regular (p : Policies V K) (unique : Bool) (s : Store V W) : Prop :=
  ∀ i t, s.table? i = some t → t.Regular p unique

theorem regular_ofWorld (p : Policies V K) (unique : Bool) (w : W) :
    (ofWorld w : Store V W).Regular p unique := by
  intro i t h
  simp [table?, ofWorld] at h

theorem Regular.step (h : s.Regular p unique) (hp : p.Coherent) (henv : env.Heeds p)
    (hs : s.Sound) {a : Action V K} (hbeside : unique = true → a.isInsertAny = false)
    (hkeys : s.KeepsKeys p a) : (s.step env a).Regular p unique := by
  intro j t' ht'
  cases table?_step hs ht' with
  | stays elsewhere before => exact h j t' before
  | @taken t cmd action before takes =>
      subst action
      exact (h j t before).takes hp henv (hs.table j t before).1 hbeside (hkeys t before) takes
  | @created capacity action here made =>
      rw [made]
      exact Table.regular_ofBuckets p unique s.fresh capacity
  | @copied i t vs action before here made copies =>
      rw [made]
      exact (h i t before).withValues hp (hs.table i t before).1.wellFormed
        (copies.imp fun _ _ hu => henv.copied hu) s.fresh

/-- By induction on the run, whose every action starts from a sound and regular store. -/
theorem Regular.after (h : s.Regular p unique) (hp : p.Coherent) (henv : env.Heeds p)
    (hs : s.Sound) {acts : List (Action V K)}
    (hbeside : unique = true → ∀ a ∈ acts, a.isInsertAny = false)
    (hkeys : KeysKept env p acts s) : (s.after env acts).Regular p unique := by
  induction acts generalizing s with
  | nil => exact h
  | cons a acts ih =>
      obtain ⟨hkeep, hrest⟩ := hkeys
      have hstep :=
        h.step hp henv hs (fun hunique => hbeside hunique a (List.mem_cons_self ..)) hkeep
      exact ih hstep (hs.step env a)
        (fun hunique b hb => hbeside hunique b (List.mem_cons_of_mem a hb)) hrest

/-- Under coherent policies, and after every run that changes no key, whether or not storage was
refused: the cached hash of every node is that of its key, the elements with equal keys are one
stretch of the traversal, and the check answers yes as long as there are no more elements than the
ladder has buckets. If the run linked nothing beside its equals, no two elements have equal keys. -/
theorem coherent_after (hp : p.Coherent) (henv : env.Heeds p) {w : W} {acts : List (Action V K)}
    (hkeys : KeysKept env p acts (ofWorld w)) {i : Nat} {t : Table V}
    (ht : ((ofWorld w).after env acts).table? i = some t) :
    (∀ k n, t.chains.nodes.get? k = some n → n.hash = p.hash (p.extract n.value))
    ∧ (∀ q, t.OneStretch p q)
    ∧ Op.Tells env t (Table.check env) (decide (t.size ≤ Ladder.top))
    ∧ ((∀ a ∈ acts, a.isInsertAny = false) →
      t.values.Pairwise fun u v => p.keyEq (p.extract u) (p.extract v) = false) := by
  have hsound := sound_ofWorld (V := V) w
  have ht' := ((hsound.after env acts).table i t ht).1
  have hwf := ht'.wellFormed
  have hregular : t.Regular p false :=
    (regular_ofWorld p false w).after hp henv hsound (fun h => nomatch h) hkeys i t ht
  refine ⟨fun k n hn => ?_, hregular.keyed.oneStretch hp hwf, ?_, fun hunique => ?_⟩
  · exact hregular.keyed.hashed ⟨k, n.value, n.hash⟩
      (hwf.mem_content.2 (Chains.element?_eq_some.2 ⟨n, hn, rfl⟩))
  · rw [← hregular.keepsPromises hp hwf]
    exact Table.tells_check henv ht'.fence
  · have hdistinct : t.Regular p true :=
      (regular_ofWorld p true w).after hp henv hsound (fun _ => hunique) hkeys i t ht
    exact (hdistinct.distinct rfl).pairwise hwf

/-- Four numbers of one hash and two keys on one chain, through a growth, a copy, an edit and a
refusal. -/
theorem coherent_after_copy :
    ∃ (env : Environment Nat Nat Budget) (acts : List (Action Nat Nat)) (t : Table Nat),
      env = Policies.sharedHash.environment (Budget.supply 8 8)
      ∧ acts = [.create 0, .on 0 (.insertAny 3), .on 0 (.insertAny 8), .on 0 (.insertAny 13),
        .on 0 (.insertAny 18), .on 0 (.insertNew 23), .on 0 (.rehash 54), .copy 0,
        .on 1 (.modify ⟨some ⟨0, 0⟩, 1, 0⟩ (· + 20)), .on 1 (.rehash 98)]
      ∧ KeysKept env .sharedHash acts (ofWorld (.ofLimit 210))
      ∧ ((ofWorld (.ofLimit 210)).after env acts).table? 1 = some t
      ∧ ((ofWorld (.ofLimit 210) : Store Nat Budget).after env acts).world = ⟨210, 8, 194, 1⟩
      ∧ t.values = [13, 23, 18, 8] ∧ (∀ q, t.OneStretch .sharedHash q)
      ∧ Op.Tells env t (Table.check env) true := by
  have hkeys : KeysKept (Policies.sharedHash.environment (Budget.supply 8 8)) .sharedHash
      [.create 0, .on 0 (.insertAny 3), .on 0 (.insertAny 8), .on 0 (.insertAny 13),
        .on 0 (.insertAny 18), .on 0 (.insertNew 23), .on 0 (.rehash 54), .copy 0,
        .on 1 (.modify ⟨some ⟨0, 0⟩, 1, 0⟩ (· + 20)), .on 1 (.rehash 98)]
      (ofWorld (.ofLimit 210)) := by
    refine ⟨trivial, fun _ _ => trivial, fun _ _ => trivial, fun _ _ => trivial,
      fun _ _ => trivial, fun _ _ => trivial, fun _ _ => trivial, trivial, fun t _ v _ => ?_,
      fun _ _ => trivial, trivial⟩
    show ((v + 20) % 10 == v % 10) = true
    exact beq_iff_eq.2 (by omega)
  have hleft : (((ofWorld (.ofLimit 210)).after
      (Policies.sharedHash.environment (Budget.supply 8 8))
      [.create 0, .on 0 (.insertAny 3), .on 0 (.insertAny 8), .on 0 (.insertAny 13),
        .on 0 (.insertAny 18), .on 0 (.insertNew 23), .on 0 (.rehash 54), .copy 0,
        .on 1 (.modify ⟨some ⟨0, 0⟩, 1, 0⟩ (· + 20)), .on 1 (.rehash 98)]).table? 1).map
        (fun t => (t.values, t.size)) = some ([13, 23, 18, 8], 4) := by decide +kernel
  obtain ⟨t, ht, hboth⟩ := Option.map_eq_some_iff.1 hleft
  obtain ⟨hvalues, hsize⟩ := Prod.mk.inj hboth
  obtain ⟨-, hstretch, hcheck, -⟩ := coherent_after Policies.coherent_sharedHash
    (Policies.heeds_environment Policies.coherent_sharedHash _) hkeys ht
  rw [hsize, show decide (4 ≤ Ladder.top) = true by decide] at hcheck
  exact ⟨_, _, t, rfl, rfl, hkeys, ht, by decide +kernel, hvalues, hstretch, hcheck⟩

end Store

end SeparateChaining
