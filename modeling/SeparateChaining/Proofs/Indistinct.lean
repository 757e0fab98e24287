import SeparateChaining.Proofs.Geometry
import SeparateChaining.Proofs.Likeness

/-!
# Histories do not show

A script is a list of instructions. Where foreign code answers as
policies do and no storage is denied, tables that are alike cannot be
told apart by any script, in whatever worlds it runs
(`Table.Indistinct`): arena slots and their reuse, identities and growths
are not to be seen through keys and positions. A copy is alike to its
original, and a table that was cleared is alike to a new one with as many
buckets. A script on one table of a store leaves the others as they are.
-/

namespace SeparateChaining

variable {V K W W' : Type}

/-! ## Scripts -/

/-- A sound table whose storage is granted. -/
structure Running.Backed (held : W → Debt → Prop) (s : Running V W) : Prop where
  sound : s.table.Sound
  held : held s.world (Table.live 0 s.table 0)

namespace Instruction

variable {p : Policies V K} {env : Environment V K W} {env' : Environment V K W'}
  {held : W → Debt → Prop} {held' : W' → Debt → Prop} {s : Running V W} {s' : Running V W'}
  {ins : Instruction V K} {script : List (Instruction V K)}

/-- What is seen of a script, and what it leaves. -/
def playAll (env : Environment V K W) :
    List (Instruction V K) → Running V W → List (Sight V) × Running V W
  | [], s => ([], s)
  | ins :: script, s =>
    ((ins.play env s).1 :: (playAll env script (ins.play env s).2).1,
      (playAll env script (ins.play env s).2).2)

/-- No instruction of the script is denied storage. -/
def Granted (env : Environment V K W) : List (Instruction V K) → Running V W → Prop
  | [], _ => True
  | ins :: script, s => ¬ins.Denied env s ∧ Granted env script (ins.play env s).2

theorem granted_of_sights (h : ∀ x ∈ (playAll env script s).1, x.isRefusal = false) :
    Granted env script s := by
  induction script generalizing s with
  | nil => trivial
  | cons ins script ih =>
      obtain ⟨hfirst, hrest⟩ := List.forall_mem_cons.1 h
      refine ⟨fun hdenied => ?_, ih hrest⟩
      cases hfirst.symm.trans hdenied.1

theorem play_alike (henv : env.Follows p held) (henv' : env'.Follows p held') (hs : s.Backed held)
    (hs' : s'.Backed held') (h : s.table.Alike s'.table) (hgranted : ¬ins.Denied env s)
    (hgranted' : ¬ins.Denied env' s') :
    (ins.play env s).1 = (ins.play env' s').1 ∧ (ins.play env s).2.Backed held
      ∧ (ins.play env' s').2.Backed held'
      ∧ (ins.play env s).2.table.Alike (ins.play env' s').2.table := by
  obtain ⟨w₁, hplay, hsound, hheld⟩ :=
    (acts henv hs.sound ins s.world hs.held).resolve_left hgranted
  obtain ⟨w₂, hplay', hsound', hheld'⟩ :=
    (acts henv' hs'.sound ins s'.world hs'.held).resolve_left hgranted'
  obtain ⟨hsight, hleft⟩ := agrees h hs.sound hs'.sound p ins
  rw [show ins.play env s = _ from hplay, show ins.play env' s' = _ from hplay']
  exact ⟨hsight.symm, ⟨hsound, hheld⟩, ⟨hsound', hheld'⟩, hleft⟩

/-- The run lemma: the same is seen of each instruction, and the tables stay alike. -/
theorem playAll_alike (henv : env.Follows p held) (henv' : env'.Follows p held')
    (hs : s.Backed held) (hs' : s'.Backed held') (h : s.table.Alike s'.table)
    (hgranted : Granted env script s) (hgranted' : Granted env' script s') :
    (playAll env script s).1 = (playAll env' script s').1
      ∧ (playAll env script s).2.table.Alike (playAll env' script s').2.table := by
  induction script generalizing s s' with
  | nil => exact ⟨rfl, h⟩
  | cons ins script ih =>
      obtain ⟨hsight, hbacked, hbacked', hleft⟩ :=
        play_alike henv henv' hs hs' h hgranted.1 hgranted'.1
      obtain ⟨hsights, hend⟩ := ih hbacked hbacked' hleft hgranted.2 hgranted'.2
      exact ⟨congrArg₂ List.cons hsight hsights, hend⟩

end Instruction

namespace Table

variable {p : Policies V K} {env : Environment V K W} {t u : Table V}

open Instruction (playAll Granted)

/-- No script tells the tables apart, in whatever worlds it runs on them. -/
def Indistinct (p : Policies V K) (t u : Table V) : Prop :=
  ∀ (W W' : Type) (env : Environment V K W) (env' : Environment V K W')
    (held : W → Debt → Prop) (held' : W' → Debt → Prop) (w : W) (w' : W'),
    env.Follows p held → env'.Follows p held' → held w (live 0 t 0) → held' w' (live 0 u 0) →
    ∀ script, Granted env script ⟨t, w⟩ → Granted env' script ⟨u, w'⟩ →
      (playAll env script ⟨t, w⟩).1 = (playAll env' script ⟨u, w'⟩).1
        ∧ (playAll env script ⟨t, w⟩).2.table.Alike (playAll env' script ⟨u, w'⟩).2.table

theorem Alike.indistinct (h : t.Alike u) (ht : t.Sound) (hu : u.Sound) : t.Indistinct p u :=
  fun _ _ _ _ _ _ _ _ henv henv' hheld hheld' _ hgranted hgranted' =>
    Instruction.playAll_alike henv henv' ⟨ht, hheld⟩ ⟨hu, hheld'⟩ h hgranted hgranted'

/-! ## Copies and cleared tables -/

theorem alike_withValues (hwf : t.chains.WellFormed) {vs : List V}
    (h : List.Forall₂ Eq t.slotValues vs) (id : Nat) : t.Alike (t.withValues id vs) := by
  have hsame : ∀ k, (t.withValues id vs).chains.nodes.get? k
      = (t.chains.nodes.get? k).map fun n => { n with value := n.value } := by
    intro k
    cases hn : t.chains.nodes.get? k with
    | none =>
        obtain ⟨g, hg⟩ := get?_withValues t id vs k
        rw [hg, hn]
        rfl
    | some n =>
        obtain ⟨v, rfl, hv⟩ := get?_withValues_of_forall₂ h id hn
        exact hv
  refine ⟨rfl, fun i _ => ?_⟩
  have hrow : (t.withValues id vs).chains.row i = _ :=
    congrFun (hwf.revalue (g := fun _ v => v) hsame).row_eq i
  rw [hrow, List.map_map]
  rfl

theorem alike_cleared (hwf : t.chains.WellFormed) (id : Nat) :
    (t.withoutAll (Chains.keysOf t.chains.elements)).Alike
      (ofBuckets id (.replicate t.bucketCount)) := by
  have hcount : (t.withoutAll (Chains.keysOf t.chains.elements)).bucketCount = t.bucketCount :=
    Chains.bucketCount_withoutAll _
  refine ⟨(Buckets.size_replicate _).trans hcount.symm, fun i _ => ?_⟩
  have hrow : (t.withoutAll (Chains.keysOf t.chains.elements)).chains.row i = _ :=
    congrFun (hwf.withoutAll _).row_eq i
  have hnew : (ofBuckets id (.replicate t.bucketCount) : Table V).chains.row i = [] :=
    congrFun (Chains.arranged_ofBuckets hwf.buckets_pos).row_eq i
  have hnone : (t.chains.row i).filter (fun e => e.key ∉ Chains.keysOf t.chains.elements) = [] := by
    rw [List.filter_eq_nil_iff]
    intro e he
    have hmem := List.mem_map_of_mem (f := Element.key) (hwf.mem_elements.2 ⟨i, he⟩)
    simpa using hmem
  rw [hrow, hnew, hnone]

end Table

/-! ## Stores -/

namespace Store

variable {p : Policies V K} {env : Environment V K W} {s : Store V W} {i : Nat} {t : Table V}

/-- Plays a script on the table in place `i`. -/
def play (env : Environment V K W) (i : Nat) (script : List (Instruction V K)) :
    EStateM Panic (Store V W) (Option (List (Sight V))) :=
  on i fun s => .ok (Instruction.playAll env script s).1 (Instruction.playAll env script s).2

theorem play_eq (ht : s.table? i = some t) (script : List (Instruction V K)) :
    s.play env i script = .ok (some (Instruction.playAll env script ⟨t, s.world⟩).1)
      (s.put i (some (Instruction.playAll env script ⟨t, s.world⟩).2.table)
        (Instruction.playAll env script ⟨t, s.world⟩).2.world) :=
  on_eq ht _

/-- A copy of equal values is sound, stands in a place of its own, and is alike to its original. -/
theorem alike_copied (hs : s.Sound) (ht : s.table? i = some t) {j : Nat} {s' : Store V W}
    (hfaithful : ∀ v v', env.Copied v v' → v' = v)
    (hrun : perform env (.copy i) s = .ok (.copied (some j)) s') :
    ∃ u, j ≠ i ∧ s'.table? i = some t ∧ s'.table? j = some u ∧ u.Sound ∧ t.Alike u := by
  obtain ⟨⟨vs, hcopy, hvs⟩, hfree, hothers⟩ := copied_of_perform hs ht hrun
  have hwf := (hs.table i t ht).1.wellFormed
  have hsame : List.Forall₂ Eq t.slotValues vs := hvs.imp fun v v' hv => (hfaithful v v' hv).symm
  have hne : i ≠ j := by
    rintro rfl
    cases hfree.symm.trans ht
  exact ⟨_, hne.symm, (hothers i hne).trans ht, hcopy,
    ⟨Table.wellFormed_withValues hwf s.fresh vs, rfl⟩, Table.alike_withValues hwf hsame s.fresh⟩

/-- A table that a clearing leaves and a new one with as many buckets are sound and alike. -/
theorem alike_created (ht : t.Sound) {w : W} {r : Running V W}
    (hclear : Table.clear env ⟨t, w⟩ = .ok () r) {id capacity : Nat} {w₁ w₂ : W} {u : Table V}
    (hcreate : Table.create env.toSupply V id capacity w₁ = .ok (.ok u) w₂)
    (hcount : u.bucketCount = t.bucketCount) : r.table.Sound ∧ u.Sound ∧ r.table.Alike u := by
  have hspec := create_spec env id capacity w₁
  rw [hcreate] at hspec
  obtain rfl : u = _ := hspec
  have hfit : Ladder.fit capacity = t.bucketCount :=
    (Buckets.size_replicate _).symm.trans hcount
  rw [Table.cleared_of_clear ht hclear, hfit]
  exact ⟨⟨(ht.wellFormed.withoutAll _).wellFormed, ht.fence⟩,
    ⟨Table.wellFormed_ofBuckets ht.wellFormed.buckets_pos, rfl⟩,
    Table.alike_cleared ht.wellFormed id⟩

/-- What scripts cannot find out: how a table came about, whether it is a copy or was cleared, and
what happens to other tables. -/
structure Forgetful (p : Policies V K) (env : Environment V K W) (s : Store V W) : Prop where
  alike : ∀ {W' : Type} (env' : Environment V K W') (w : W') acts i j t u, s.table? i = some t →
    ((ofWorld w).after env' acts).table? j = some u → t.Alike u → t.Indistinct p u
  copied : ∀ i t j s', s.table? i = some t → (∀ v v', env.Copied v v' → v' = v) →
    perform env (.copy i) s = .ok (.copied (some j)) s' →
    ∃ u, j ≠ i ∧ s'.table? i = some t ∧ s'.table? j = some u ∧ t.Alike u ∧ t.Indistinct p u
  cleared : ∀ i t w r, s.table? i = some t → Table.clear env ⟨t, w⟩ = .ok () r →
    ∀ id capacity w u w', Table.create env.toSupply V id capacity w = .ok (.ok u) w' →
      u.bucketCount = t.bucketCount → r.table.Alike u ∧ r.table.Indistinct p u
  apart : ∀ i t script, s.table? i = some t → ∃ s',
    s.play env i script = .ok (some (Instruction.playAll env script ⟨t, s.world⟩).1) s'
      ∧ s'.table? i = some (Instruction.playAll env script ⟨t, s.world⟩).2.table
      ∧ ∀ j, j ≠ i → s'.table? j = s.table? j

/-- After any run, whatever policies a script then meets: it does not tell apart tables that are
alike, wherever and however they came about. A copy of equal values is alike to its original, a
cleared table is alike to a new one with as many buckets, and a script on one table leaves all
others alone. -/
theorem forgetful_after (p : Policies V K) (env : Environment V K W) (w : W)
    (acts : List (Action V K)) : ((ofWorld w : Store V W).after env acts).Forgetful p env := by
  have hsound := (sound_ofWorld (V := V) w).after env acts
  generalize (ofWorld w : Store V W).after env acts = s at hsound
  refine ⟨fun env' w' acts' i j t u ht hu halike => ?_, fun i t j s' ht hfaithful hrun => ?_,
    fun i t w r ht hrun id capacity w₁ u w₂ hcreate hcount => ?_, fun i t script ht => ?_⟩
  · have hu' := ((sound_ofWorld (V := V) w').after env' acts').table j u hu
    exact halike.indistinct (hsound.table i t ht).1 hu'.1
  · obtain ⟨u, hne, hstays, hcopy, hu, halike⟩ := alike_copied hsound ht hfaithful hrun
    exact ⟨u, hne, hstays, hcopy, halike, halike.indistinct (hsound.table i t ht).1 hu⟩
  · obtain ⟨hr, hu, halike⟩ := alike_created (hsound.table i t ht).1 hrun hcreate hcount
    exact ⟨halike, halike.indistinct hr hu⟩
  · exact ⟨_, play_eq ht script, table?_put_self (lt_of_table? ht) .., fun j hj =>
      table?_put_ne hj ..⟩

/-- One table has grown to its buckets, the other was made with them and has used a slot twice. They
hold the same, so a script that is seen on the one is known on the other. -/
theorem forgetful_after_reuse :
    ∃ (p : Policies Nat Nat) (env : Environment Nat Nat Unit) (script : List (Instruction Nat Nat))
      (t u : Table Nat), p = ⟨id, fun _ => 7, (· == ·)⟩ ∧ env = p.environment (.unlimited 4096 8 8)
      ∧ script = [.insertAny 10, .range 10, .erase 2, .iterate, .get 2]
      ∧ ((ofWorld ()).after env [.create 0, .on 0 (.rehash 54), .on 0 (.insertAny 10),
        .on 0 (.insertAny 20)]).table? 0 = some t
      ∧ ((ofWorld ()).after env [.create 0, .create 54, .on 1 (.insertAny 30),
        .on 1 (.insertAny 10), .on 1 (.remove ⟨some ⟨0, 0⟩, 1, 0⟩),
        .on 1 (.insertAny 20)]).table? 1 = some u
      ∧ Chains.keysOf t.chains.elements = [⟨1, 0⟩, ⟨0, 0⟩]
      ∧ Chains.keysOf u.chains.elements = [⟨0, 1⟩, ⟨1, 0⟩] ∧ t.Alike u
      ∧ (Instruction.playAll env script ⟨u, ()⟩).1 = [.position (some 2),
        .positions (some 1) (some 3), .position (some 2), .values [20, 10],
        .panicked .endCursor] := by
  generalize hp : (Policies.mk id (fun _ => 7) (· == ·) : Policies Nat Nat) = p
  generalize henv : p.environment (.unlimited 4096 8 8 : Supply Unit) = env
  have hfirst : (((ofWorld ()).after env [.create 0, .on 0 (.rehash 54), .on 0 (.insertAny 10),
      .on 0 (.insertAny 20)]).table? 0).map (fun t => (t.traces, Chains.keysOf t.chains.elements,
        (Instruction.playAll env [.insertAny 10, .range 10, .erase 2, .iterate,
          .get 2] ⟨t, ()⟩).1))
      = some ((List.range 97).map fun i => if i = 7 then [(20, 7), (10, 7)] else [],
        [⟨1, 0⟩, ⟨0, 0⟩], [.position (some 2), .positions (some 1) (some 3), .position (some 2),
          .values [20, 10], .panicked .endCursor]) := by
    subst henv hp
    decide +kernel
  have hsecond : (((ofWorld ()).after env [.create 0, .create 54, .on 1 (.insertAny 30),
      .on 1 (.insertAny 10), .on 1 (.remove ⟨some ⟨0, 0⟩, 1, 0⟩),
      .on 1 (.insertAny 20)]).table? 1).map (fun u => (u.traces, Chains.keysOf u.chains.elements,
        (Instruction.playAll env [.insertAny 10, .range 10, .erase 2, .iterate,
          .get 2] ⟨u, ()⟩).1.all fun x => !x.isRefusal))
      = some ((List.range 97).map fun i => if i = 7 then [(20, 7), (10, 7)] else [],
        [⟨0, 1⟩, ⟨1, 0⟩], true) := by
    subst henv hp
    decide +kernel
  obtain ⟨t, ht, hcomputed⟩ := Option.map_eq_some_iff.1 hfirst
  obtain ⟨u, hu, hcomputed'⟩ := Option.map_eq_some_iff.1 hsecond
  simp only [Prod.mk.injEq] at hcomputed hcomputed'
  obtain ⟨htraces, hkeys, hsights⟩ := hcomputed
  obtain ⟨htraces', hkeys', hgranted'⟩ := hcomputed'
  have halike : t.Alike u := Table.alike_of_traces (htraces.trans htraces'.symm)
  have hgranted : Instruction.Granted env _ ⟨t, ()⟩ :=
    Instruction.granted_of_sights (by rw [hsights]; decide)
  have hfollows : env.Follows p fun _ _ => True :=
    henv ▸ p.follows_takesBack (Supply.takesBack_unlimited 4096 8 8)
  have hsame := (forgetful_after p env () [.create 0, .on 0 (.rehash 54), .on 0 (.insertAny 10),
    .on 0 (.insertAny 20)]).alike env () _ 0 1 t u ht hu halike _ _ env env _ _ () () hfollows
    hfollows trivial trivial _ hgranted (Instruction.granted_of_sights (by simpa using hgranted'))
  exact ⟨p, env, _, t, u, rfl, henv.symm, rfl, ht, hu, hkeys, hkeys', halike,
    hsame.1.symm.trans hsights⟩

end Store

end SeparateChaining
