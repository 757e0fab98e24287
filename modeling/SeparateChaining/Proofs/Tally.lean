import Mathlib.Algebra.BigOperators.Group.List.Basic
import SeparateChaining.Environment.Policies
import SeparateChaining.Proofs.Run

/-!
# What tables hold is granted

The storage that tables hold together is what their supply has granted
and not got back. Which units that are, is said by a relation `held`
between worlds and debts that every use of the environment keeps
(`Tallies`): a grant adds to them, a return takes them away. For one
table the contract `tallying` says so relative to `rest`, what the other
tables hold: granted are the units of the rest, those that the table
holds, and those of the debt. That is what makes the many places where
storage is granted and returned one argument each: a grant and a return
move the debt, and linking, taking out, growing, copying and releasing
move units between the debt and the table. Since every operation ends
without a debt, the sums over the store stay right
(`Store.tallied_after`).
-/

namespace SeparateChaining

variable {V K W α : Type}

/-! ## Environments that keep a tally -/

/-- The world that a use of the environment leaves. -/
def Environment.worldAfter : EStateM.Result Panic W α → W
  | .ok _ w => w
  | .error _ w => w

/-- A use of the environment answers `a` and leaves a world that has `d` granted. -/
def Gives (held : W → Debt → Prop) (d : Debt) (a : α) (r : EStateM.Result Panic W α) : Prop :=
  ∃ w, r = .ok a w ∧ held w d

/-- In `held w d` the world `w` has the units `d` granted. Requests are granted or refused, what is
granted is taken back, and nothing else changes what is granted. Foreign code may panic. -/
structure Environment.Tallies (env : Environment V K W) (held : W → Debt → Prop) : Prop where
  allocate : ∀ b n w d, held w d → match env.allocate b n w with
    | (.ok (), w') => held w' (d.add b n)
    | (.error _, w') => held w' d
  deallocate : ∀ b n w d, held w (d.add b n) → Gives held d () (env.deallocate b n w)
  reserve : ∀ bytes w d, held w d → held (env.reserve bytes w).2 d
  report : ∀ n w d, held w d → held (env.report n w) d
  extract : ∀ seen v w d, held w d → held (worldAfter (env.extract seen v w)) d
  hash : ∀ seen k w d, held w d → held (worldAfter (env.hash seen k w)) d
  keyEq : ∀ seen a b w d, held w d → held (worldAfter (env.keyEq seen a b w)) d
  copy : ∀ seen v w d, held w d → held (worldAfter (env.copy seen v w)) d
  dispose : ∀ seen v w d, held w d → held (worldAfter (env.dispose seen v w)) d
  unwinding : ∀ seen v w d, held w d → held (env.disposeUnwinding seen v w) d

/-- An act on the world, beside a record that it does not touch. -/
def beside {D : Type} (act : EStateM Panic W α) : EStateM Panic (W × D) α := fun (w, d) =>
  match act w with
  | .ok a w => .ok a (w, d)
  | .error p w => .error p (w, d)

/-- The environment with a record of what is granted. -/
def Environment.recorded (env : Environment V K W) : Environment V K (W × Debt) where
  extract seen v := beside (env.extract seen v)
  hash seen k := beside (env.hash seen k)
  keyEq seen a b := beside (env.keyEq seen a b)
  copy seen v := beside (env.copy seen v)
  dispose seen v := beside (env.dispose seen v)
  disposeUnwinding seen v := fun (w, d) => (env.disposeUnwinding seen v w, d)
  allocate b n := fun (w, d) => match env.allocate b n w with
    | (.ok (), w) => (.ok (), (w, d.add b n))
    | (.error e, w) => (.error e, (w, d))
  deallocate b n := fun (w, d) => match env.deallocate b n w with
    | .ok () w => .ok () (w, d.sub b n)
    | .error p w => .error p (w, d)
  reserve bytes := fun (w, d) => ((env.reserve bytes w).1, ((env.reserve bytes w).2, d))
  report n := fun (w, d) => (env.report n w, d)
  nodeBytes := env.nodeBytes
  slotBytes := env.slotBytes

theorem worldAfter_beside {D : Type} (act : EStateM Panic W α) (w : W) (d : D) :
    (Environment.worldAfter (beside act (w, d))).2 = d := by
  rw [beside]
  cases act w with
  | ok a w' => rfl
  | error p w' => rfl

/-- What is granted can be recorded beside any world, if returning storage does not panic. -/
theorem Environment.tallies_recorded {env : Environment V K W}
    (hreturns : ∀ p, ¬ env.toSupply.Raises p) : env.recorded.Tallies fun w d => w.2 = d where
  allocate b n w d h := by
    obtain ⟨w, d⟩ := w
    obtain rfl := h
    simp only [Environment.recorded]
    rcases env.allocate b n w with ⟨e | u, w'⟩
    · rfl
    · rfl
  deallocate b n w d h := by
    obtain ⟨w, d'⟩ := w
    obtain rfl : d' = d.add b n := h
    cases hrun : env.deallocate b n w with
    | ok u w' =>
        refine ⟨(w', d), ?_, rfl⟩
        show (match env.deallocate b n w with
          | .ok () w => .ok () (w, (d.add b n).sub b n)
          | .error p w => .error p (w, d.add b n)) = EStateM.Result.ok () (w', d)
        rw [hrun, Debt.add_sub]
    | error p w' => exact absurd ⟨b, n, w, w', hrun⟩ (hreturns p)
  reserve _ _ _ h := h
  report _ _ _ h := h
  extract seen v w d h := (worldAfter_beside (env.extract seen v) w.1 w.2).trans h
  hash seen k w d h := (worldAfter_beside (env.hash seen k) w.1 w.2).trans h
  keyEq seen a b w d h := (worldAfter_beside (env.keyEq seen a b) w.1 w.2).trans h
  copy seen v w d h := (worldAfter_beside (env.copy seen v) w.1 w.2).trans h
  dispose seen v w d h := (worldAfter_beside (env.dispose seen v) w.1 w.2).trans h
  unwinding _ _ _ _ h := h

/-- A supply of as many nodes as the world says are left, and of any number of buckets. -/
def Supply.nodesLeft : Supply Nat where
  allocate
    | .node, n, left => if n ≤ left then (.ok (), left - n) else (.error (.exhausted n left), left)
    | .bucket, _, left => (.ok (), left)
  deallocate
    | .node, n => fun left => .ok () (left + n)
    | .bucket, _ => fun left => .ok () left
  reserve _ left := (true, left)
  report _ left := left
  nodeBytes := 8
  slotBytes := 8

theorem Supply.nodesLeft_returns (p : Panic) : ¬ Supply.nodesLeft.Raises p := by
  rintro ⟨b, n, w, w', hrun⟩
  cases b with
  | node => cases hrun
  | bucket => cases hrun

/-- Numbers that are their own keys, with few nodes and a record of what is granted. -/
def Environment.fewNodes : Environment Nat Nat (Nat × Debt) :=
  ((Policies.mk id Nat.toUInt64 (· == ·)).environment .nodesLeft).recorded

theorem Environment.tallies_fewNodes : fewNodes.Tallies fun w d => w.2 = d :=
  tallies_recorded Supply.nodesLeft_returns

/-! ## One table -/

namespace Table

/-- What is granted when others hold `rest`, the table is `t` and the debt is `d`. -/
def live (rest : Debt) (t : Table V) (d : Debt) : Debt where
  nodes := rest.nodes + t.size + d.nodes
  buckets := rest.buckets + t.bucketCount + d.buckets

theorem live_add (rest : Debt) (t : Table V) (d : Debt) (b : Block) (n : Nat) :
    live rest t (d.add b n) = (live rest t d).add b n := by
  cases b with
  | node => simp [live, Debt.add, Nat.add_assoc]
  | bucket => simp [live, Debt.add, Nat.add_assoc]

theorem size_linked (t : Table V) (p : Chains.Place) (v : V) (hash : UInt64) :
    (t.linked p v hash).size = t.size + 1 :=
  Chains.size_insertAt ..

theorem size_without {t : Table V} (hwf : t.chains.WellFormed) {k : ArenaKey} {e : Element V}
    (he : t.chains.element? k = some e) : (t.without k).size + 1 = t.size :=
  hwf.size_without he

theorem size_edited (t : Table V) (k : ArenaKey) (f : V → V) : (t.edited k f).size = t.size :=
  Arena.size_modify ..

/-! Units move between the table and the debt, and what is granted stays. -/

theorem live_grown (rest : Debt) {t t' : Table V} {n : Nat} (h : t.Grown n t') :
    live rest t ((0 : Debt).add .bucket n)
      = live rest t' ((0 : Debt).add .bucket t.bucketCount) := by
  have hbuckets : t'.bucketCount = n := h.chains.bucketCount
  simp only [live, Debt.add, Debt.mk.injEq, h.size, hbuckets, true_and]
  omega

theorem live_linked (rest : Debt) (t : Table V) (p : Chains.Place) (v : V) (hash : UInt64) :
    live rest t ((0 : Debt).add .node 1) = live rest (t.linked p v hash) 0 := by
  have hbuckets : (t.linked p v hash).bucketCount = t.bucketCount := Chains.bucketCount_insertAt ..
  simp only [live, Debt.add, Debt.mk.injEq, size_linked, hbuckets, and_true]
  show rest.nodes + t.size + (0 + 1) = rest.nodes + (t.size + 1) + 0
  omega

theorem live_without (rest : Debt) {t : Table V} (hwf : t.chains.WellFormed) {k : ArenaKey}
    {e : Element V} (he : t.chains.element? k = some e) :
    live rest t 0 = live rest (t.without k) ((0 : Debt).add .node 1) := by
  have hbuckets : (t.without k).bucketCount = t.bucketCount := Chains.bucketCount_without k
  simp only [live, Debt.add, Debt.mk.injEq, ← size_without hwf he, hbuckets, and_true]
  show rest.nodes + ((t.without k).size + 1) + 0 = rest.nodes + (t.without k).size + (0 + 1)
  omega

theorem live_edited (rest : Debt) (t : Table V) (k : ArenaKey) (f : V → V) :
    live rest t 0 = live rest (t.edited k f) 0 := by
  simp only [live, Debt.mk.injEq, size_edited, true_and]
  rfl

/-- What a table held is owed when it is given up. -/
theorem live_emptied (rest : Debt) (t : Table V) :
    live rest ({ t with chains := default } : Table V) t.holdings = live rest t 0 := by
  refine Debt.ext ?_ ?_
  · show rest.nodes + 0 + (0 + t.size) = rest.nodes + t.size + 0
    omega
  · show rest.buckets + 0 + (0 + t.bucketCount) = rest.buckets + t.bucketCount + 0
    omega

end Table

namespace Contract

variable {env : Environment V K W} {held : W → Debt → Prop} {rest : Debt}

open Environment (worldAfter)

/-- Granted is what the others hold, what the table holds and the debt. -/
def tallying (env : Environment V K W) (held : W → Debt → Prop) (rest : Debt) :
    Contract V K W where
  inv d t w := held w (Table.live rest t d)
  panics p := p.isMisuse = true ∨ env.toCaller.Raises p
  refuses _ := True
  key _ _ := True
  hash _ _ := True
  eq _ _ _ := True

theorem settles_tallying {t : Table V} {ok : α → Prop} (hok : ∀ a, ok a)
    {r : EStateM.Result Panic W α} (hr : ∀ p w, r = .error p w → env.toCaller.Raises p)
    (h : held (worldAfter r) (Table.live rest t 0)) :
    (tallying env held rest).Settles 0 t ok r := by
  cases r with
  | ok a w => exact ⟨h, hok a⟩
  | error p w => exact ⟨h, Or.inr (hr p w rfl)⟩

theorem obeyed_tallying (henv : env.Tallies held) (rest : Debt) :
    (tallying env held rest).Obeyed env where
  extract _ seen v w h := settles_tallying (fun _ => trivial) (fun _ _ hr => .extract hr)
    (henv.extract seen v w _ h)
  hash _ seen k w h := settles_tallying (fun _ => trivial) (fun _ _ hr => .hash hr)
    (henv.hash seen k w _ h)
  keyEq _ seen a b w h := settles_tallying (fun _ => trivial) (fun _ _ hr => .keyEq hr)
    (henv.keyEq seen a b w _ h)
  dispose _ seen v w h := settles_tallying (fun _ => trivial) (fun _ _ hr => .dispose hr)
    (henv.dispose seen v w _ h)
  unwinding _ seen v w h := henv.unwinding seen v w _ h
  report _ _ n w h := henv.report n w _ h
  reserve _ _ bytes w h := henv.reserve bytes w _ h
  unreserved _ _ _ _ := trivial
  allocate d t b n w h := by
    have hgrant := henv.allocate b n w _ h
    rcases hrun : env.allocate b n w with ⟨e | u, w'⟩
    · rw [hrun] at hgrant
      exact ⟨hgrant, trivial⟩
    · rw [hrun] at hgrant
      show held w' _
      rw [Table.live_add]
      exact hgrant
  deallocate d t b n w h := by
    have hlive : held w ((Table.live rest t d).add b n) := by
      rw [← Table.live_add]
      exact h
    obtain ⟨w', hrun, hheld⟩ := henv.deallocate b n w _ hlive
    rw [hrun]
    exact ⟨hheld, trivial⟩

theorem copies_tallying (henv : env.Tallies held) (rest : Debt) :
    (tallying env held rest).Copies env :=
  fun _ seen v w h => settles_tallying (fun _ => trivial) (fun _ _ hr => .copy hr)
    (henv.copy seen v w _ h)

/-- Every command keeps the tally. -/
theorem suits_tallying (henv : env.Tallies held) (rest : Debt) (cmd : Command V K) :
    (tallying env held rest).Suits env cmd where
  obeyed := obeyed_tallying henv rest
  grows := by
    refine ⟨fun t n t' w _ _ _ hgrown h => ?_, fun _ _ _ _ _ _ _ _ _ _ h => h⟩
    show held w _
    rw [← Table.live_grown rest hgrown]
    exact h
  links t p v hash w _ _ _ h := by
    show held w _
    rw [← Table.live_linked]
    exact h
  unlinks _ t k e w hwf he h := by
    show held w _
    rw [← Table.live_without rest hwf he]
    exact h
  edits _ t k f n w _ _ h := by
    show held w _
    rw [← Table.live_edited]
    exact h
  misuse _ hp := Or.inl hp

theorem empties_tallying : (tallying env held rest).Empties := by
  intro t w _ h
  show held w (Table.live rest { t with chains := default } t.holdings)
  rw [Table.live_emptied]
  exact h

end Contract

/-! ## All tables of a store -/

namespace Store

variable {env : Environment V K W} {held : W → Debt → Prop} {s : Store V W} {i : Nat} {t : Table V}

/-- A figure of the tables of a store, summed up. -/
def sum (f : Table V → Nat) (s : Store V W) : Nat :=
  (s.tables.toList.map fun t => t.elim 0 f).sum

/-- The sum without the table in place `i`. -/
def sumBut (f : Table V → Nat) (s : Store V W) (i : Nat) : Nat :=
  ((s.tables.toList.map fun t => t.elim 0 f).take i).sum
    + ((s.tables.toList.map fun t => t.elim 0 f).drop (i + 1)).sum

theorem sum_put (f : Table V → Nat) (hi : i < s.tables.size) (t : Option (Table V)) (w : W) :
    (s.put i t w).sum f = s.sumBut f i + t.elim 0 f := by
  have hlist : ((s.put i t w).tables.toList.map fun t => t.elim 0 f)
      = (s.tables.toList.map fun t => t.elim 0 f).set i (t.elim 0 f) := by
    rw [put, Array.toList_setIfInBounds, List.map_set]
  rw [sum, hlist, List.sum_set, sumBut, if_pos (by simpa using hi)]
  omega

theorem sum_eq (f : Table V → Nat) (h : s.table? i = some t) : s.sum f = s.sumBut f i + f t := by
  have hsum := sum_put f (lt_of_table? h) (some t) s.world
  rwa [put_self h] at hsum

theorem sum_place (f : Table V → Nat) (s : Store V W) (t : Option (Table V)) :
    (s.place t).sum f = s.sum f + t.elim 0 f := by
  rw [sum, place, Array.toList_push, List.map_append, List.sum_append]
  simp [sum]

/-- Granted is what the tables hold. -/
def Tallied (held : W → Debt → Prop) (s : Store V W) : Prop :=
  held s.world ⟨s.sum Table.size, s.sum Table.bucketCount⟩

/-- What the tables hold besides the one in place `i`. -/
def rest (s : Store V W) (i : Nat) : Debt := ⟨s.sumBut Table.size i, s.sumBut Table.bucketCount i⟩

/-- An action that ends as it should: the tally is right, and a panic is a misuse or comes from
foreign code. -/
def Settled (env : Environment V K W) (held : W → Debt → Prop) :
    EStateM.Result Panic (Store V W) α → Prop
  | .ok _ s => s.Tallied held
  | .error p s => s.Tallied held ∧ (p.isMisuse = true ∨ env.toCaller.Raises p)

/-- The tally of a store is that of one table beside the rest. -/
theorem Tallied.live (h : s.Tallied held) (ht : s.table? i = some t) :
    held s.world (Table.live (s.rest i) t 0) := by
  have hlive : Table.live (s.rest i) t 0 = ⟨s.sum Table.size, s.sum Table.bucketCount⟩ :=
    Debt.ext (sum_eq Table.size ht).symm (sum_eq Table.bucketCount ht).symm
  rw [hlive]
  exact h

theorem tallied_put (hi : i < s.tables.size) {t' : Table V} {w : W}
    (h : held w (Table.live (s.rest i) t' 0)) : (s.put i (some t') w).Tallied held := by
  have hlive : Table.live (s.rest i) t' 0
      = ⟨(s.put i (some t') w).sum Table.size, (s.put i (some t') w).sum Table.bucketCount⟩ :=
    Debt.ext (sum_put Table.size hi (some t') w).symm
      (sum_put Table.bucketCount hi (some t') w).symm
  rw [hlive] at h
  exact h

theorem tallied_put_none (hi : i < s.tables.size) {w : W} (h : held w (s.rest i)) :
    (s.put i none w).Tallied held := by
  have hrest : s.rest i
      = ⟨(s.put i none w).sum Table.size, (s.put i none w).sum Table.bucketCount⟩ :=
    Debt.ext (sum_put Table.size hi none w).symm (sum_put Table.bucketCount hi none w).symm
  rw [hrest] at h
  exact h

theorem tallied_place {w : W} {t' : Table V}
    (h : held w ⟨s.sum Table.size + t'.size, s.sum Table.bucketCount + t'.bucketCount⟩) :
    (place { s with world := w } (some t')).Tallied held := by
  have hsize := sum_place Table.size { s with world := w } (some t')
  have hbuckets := sum_place Table.bucketCount { s with world := w } (some t')
  rw [Tallied, hsize, hbuckets]
  exact h

theorem tallied_place_none {w : W}
    (h : held w ⟨s.sum Table.size, s.sum Table.bucketCount⟩) :
    (place { s with world := w } none).Tallied held := by
  have hsize := sum_place Table.size { s with world := w } none
  have hbuckets := sum_place Table.bucketCount { s with world := w } none
  rw [Tallied, hsize, hbuckets]
  exact h

theorem settled_on (henv : env.Tallies held) (hs : s.Sound) (h : s.Tallied held)
    (cmd : Command V K) : Settled env held (perform env (.on i cmd) s) := by
  cases hi : s.table? i with
  | none =>
      rw [perform_on_none hi]
      exact h
  | some t =>
      have hsound := (hs.table i t hi).1
      have hkeeps := Command.keeps_run (t := t) cmd
        (Contract.suits_tallying henv (s.rest i) cmd)
      rw [perform_on hi]
      cases hrun : cmd.run env ⟨t, s.world⟩ with
      | ok a r =>
          obtain ⟨d, t', htable, hinv, -, rfl, -⟩ :=
            hkeeps.of_run_ok hsound.fence hsound.wellFormed (h.live hi) hrun
          obtain ⟨table, w⟩ := r
          obtain rfl : table = t'.fencedBy none := htable
          exact tallied_put (lt_of_table? hi) hinv
      | error p r =>
          obtain ⟨t', htable, hinv, -, hpanic⟩ :=
            hkeeps.of_run_error hsound.fence hsound.wellFormed (h.live hi) hrun
          obtain ⟨table, w⟩ := r
          obtain rfl : table = t'.fencedBy none := htable
          exact ⟨tallied_put (lt_of_table? hi) hinv, hpanic⟩

theorem settled_create (henv : env.Tallies held) (h : s.Tallied held) (capacity : Nat) :
    Settled env held (perform env (.create capacity) s) := by
  have hinv : (Contract.tallying env held ⟨s.sum Table.size, s.sum Table.bucketCount⟩).inv 0
      default s.world := h
  have huses := Table.uses_create (Contract.obeyed_tallying henv _) s.fresh capacity s.world hinv
  rw [perform_create]
  rcases hrun : Table.create env.toSupply V s.fresh capacity s.world with ⟨e | t, w⟩ | ⟨p, w⟩
  · rw [hrun] at huses
    obtain ⟨d, hinv', rfl, -⟩ := huses
    exact tallied_place_none hinv'
  · rw [hrun] at huses
    obtain ⟨d, hinv', rfl, ht⟩ := huses
    refine tallied_place ?_
    have hlive : Table.live ⟨s.sum Table.size, s.sum Table.bucketCount⟩ (default : Table V)
        ((0 : Debt).add .bucket t.bucketCount)
        = ⟨s.sum Table.size + t.size, s.sum Table.bucketCount + t.bucketCount⟩ := by
      refine Debt.ext ?_ ?_
      · rw [ht]
        rfl
      · exact congrArg (s.sum Table.bucketCount + ·) (Nat.zero_add _)
    rw [← hlive]
    exact hinv'
  · rw [hrun] at huses
    exact ⟨tallied_place_none huses.1, huses.2⟩

theorem settled_copy (henv : env.Tallies held) (hs : s.Sound) (h : s.Tallied held) :
    Settled env held (perform env (.copy i) s) := by
  cases hi : s.table? i with
  | none =>
      rw [perform_copy_none hi]
      exact h
  | some t =>
      have hsound := (hs.table i t hi).1
      have hput : ∀ w, s.put i (some t) w = { s with world := w } := put_self hi
      have hkeeps := Table.keeps_copy (t := t)
        ((Contract.obeyed_tallying henv (s.rest i)).pin t)
        ((Contract.copies_tallying henv (s.rest i)).pin t) (fun e _ => Or.inl rfl) s.fresh
      rw [perform_copy hi]
      cases hrun : Table.copy env s.fresh ⟨t, s.world⟩ with
      | ok t' r =>
          obtain ⟨d, t'', htable, ⟨rfl, hinv⟩, -, -, rfl, vs, rfl, -⟩ :=
            hkeeps.of_run_ok hsound.fence hsound.wellFormed ⟨rfl, h.live hi⟩ hrun
          obtain ⟨table, w⟩ := r
          obtain rfl : table = t'' := htable.trans (Table.fencedBy_eq hsound.fence)
          simp only [hput]
          refine tallied_place ?_
          have hlive : Table.live (s.rest i) table table.holdings
              = ⟨s.sum Table.size + (table.withValues s.fresh vs).size,
                s.sum Table.bucketCount + (table.withValues s.fresh vs).bucketCount⟩ := by
            refine Debt.ext ?_ ?_
            · rw [Table.size_withValues, sum_eq Table.size hi]
              exact congrArg (s.sumBut Table.size i + table.size + ·) (Nat.zero_add _)
            · rw [sum_eq Table.bucketCount hi]
              exact congrArg (s.sumBut Table.bucketCount i + table.bucketCount + ·) (Nat.zero_add _)
          rw [← hlive]
          exact hinv
      | error p r =>
          obtain ⟨t'', htable, ⟨rfl, hinv⟩, -, hpanic⟩ :=
            hkeeps.of_run_error hsound.fence hsound.wellFormed ⟨rfl, h.live hi⟩ hrun
          obtain ⟨table, w⟩ := r
          obtain rfl : table = t'' := htable.trans (Table.fencedBy_eq hsound.fence)
          simp only [hput]
          refine ⟨tallied_place_none ?_, hpanic⟩
          rw [sum_eq Table.size hi, sum_eq Table.bucketCount hi]
          exact hinv

theorem settled_drop (henv : env.Tallies held) (hs : s.Sound) (h : s.Tallied held) :
    Settled env held (perform env (.drop i) s) := by
  cases hi : s.table? i with
  | none =>
      rw [perform_drop_none hi]
      exact h
  | some t =>
      have hdrained := Table.drained_release (Contract.obeyed_tallying henv (s.rest i))
        Contract.empties_tallying (hs.table i t hi).1.wellFormed (h.live hi)
      have hlt := lt_of_table? hi
      rw [perform_drop hi]
      cases hrun : Table.release env ⟨t, s.world⟩ with
      | ok u r =>
          rw [hrun] at hdrained
          exact tallied_put_none hlt hdrained
      | error p r =>
          rw [hrun] at hdrained
          exact ⟨tallied_put_none hlt hdrained.1, hdrained.2⟩

theorem settled_perform (henv : env.Tallies held) (hs : s.Sound) (h : s.Tallied held)
    (a : Action V K) : Settled env held (perform env a s) := by
  cases a with
  | create capacity => exact settled_create henv h capacity
  | copy i => exact settled_copy henv hs h
  | drop i => exact settled_drop henv hs h
  | on i cmd => exact settled_on henv hs h cmd

theorem Settled.left {r : EStateM.Result Panic (Store V W) α} (h : Settled env held r) :
    (left r).Tallied held := by
  cases r with
  | ok a s => exact h
  | error p s => exact h.1

/-- From a world in which nothing is granted, every run keeps the tally. -/
theorem tallied_after (henv : env.Tallies held) {w : W} (hw : held w 0)
    (acts : List (Action V K)) :
    ((ofWorld w : Store V W).after env acts).Sound
      ∧ ((ofWorld w : Store V W).after env acts).Tallied held :=
  after_induction (P := fun s => s.Sound ∧ s.Tallied held) ⟨sound_ofWorld w, hw⟩
    (fun _ a h => ⟨h.1.step env a, (settled_perform henv h.1 h.2 a).left⟩) acts

end Store

end SeparateChaining
