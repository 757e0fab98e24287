import SeparateChaining.Proofs.Command
import SeparateChaining.Proofs.Table.Failure

/-!
# What becomes of the values

A key names one value as long as its element is in the table. A table
only goes on to tables `Later` than it is: it keeps its identity, a key
that has lost its element never gets another, and neither the count of
growths nor the number of buckets ever falls. Over one command an
element is still held, with the value that the command makes of it
(`Command.edit`), or it is one of those that the command set out to take
out (`Command.targets`).

A removal takes out what it set out to, in that order and nothing else.
If it panics, that is before it found anything, or because it failed on
a value, and then the element of that value is the last one taken out
(`Command.takesOut`).
-/

namespace SeparateChaining

variable {V K W α β : Type}

namespace Table

variable {t t' t'' : Table V} {removal edit : Bool} {k : ArenaKey} {v : V}

/-- The value of the element that `k` names. -/
def value? (t : Table V) (k : ArenaKey) : Option V := (t.chains.element? k).map (·.value)

theorem value?_eq (t : Table V) (k : ArenaKey) :
    t.value? k = (t.chains.nodes.get? k).map (·.value) := by
  rw [value?, Chains.element?, Option.map_map]
  rfl

theorem value?_of_spent (h : t.chains.nodes.Spent k) : t.value? k = none := by
  rw [value?_eq, h.get?]
  rfl

/-- `t'` comes after `t` in the life of one table. -/
structure Later (t t' : Table V) : Prop where
  id : t'.id = t.id
  follows : t.chains.nodes.Follows t'.chains.nodes
  growths_le : t.growths ≤ t'.growths
  buckets_le : t.bucketCount ≤ t'.bucketCount

theorem Later.refl (t : Table V) : t.Later t := ⟨rfl, .refl _, Nat.le_refl _, Nat.le_refl _⟩

theorem Later.trans (h : t.Later t') (h' : t'.Later t'') : t.Later t'' where
  id := h'.id.trans h.id
  follows := h.follows.trans h'.follows
  growths_le := Nat.le_trans h.growths_le h'.growths_le
  buckets_le := Nat.le_trans h.buckets_le h'.buckets_le

/-- A change that does not grow the table is later if the arena follows. -/
theorem Later.of_follows (hid : t'.id = t.id) (hgrowths : t'.growths = t.growths)
    (hbuckets : t'.bucketCount = t.bucketCount)
    (hfollows : t.chains.nodes.Follows t'.chains.nodes) : t.Later t' :=
  ⟨hid, hfollows, Nat.le_of_eq hgrowths.symm, Nat.le_of_eq hbuckets.symm⟩

theorem Change.later (h : Change removal edit t t') : t.Later t' := by
  cases h with
  | @grow _ n wellFormed more grown =>
      have hbuckets : t'.bucketCount = n := grown.chains.bucketCount
      have hgrowths := grown.growths
      refine ⟨grown.id, grown.chains.follows, ?_, ?_⟩
      · omega
      · omega
  | link wellFormed fits =>
      exact .of_follows rfl rfl (Chains.bucketCount_insertAt ..) (Chains.follows_insertAt ..)
  | unlink allowed wellFormed live =>
      exact .of_follows rfl rfl (Chains.bucketCount_without _) (Chains.follows_without _)
  | edit allowed wellFormed live => exact .of_follows rfl rfl rfl (Arena.follows_modify ..)

theorem Changes.later (h : Changes removal edit t t') : t.Later t' := by
  induction h with
  | refl => exact .refl t
  | tail _ hchange ih => exact ih.trans hchange.later

/-- One change without edits leaves an element with its value, or takes it out. -/
theorem Change.value? (h : Change removal false t t') (hk : t.value? k = some v) :
    t'.value? k = some v ∨ (removal = true ∧ t'.value? k = none) := by
  cases h with
  | grow wellFormed more grown =>
      refine Or.inl ?_
      rw [Table.value?, grown.chains.element?]
      exact hk
  | @link p u hash wellFormed fits =>
      have hne : k ≠ t.linkedKey p u hash := by
        rintro rfl
        have hfresh : t.chains.nodes.get? (t.linkedKey p u hash) = none :=
          Arena.get?_insert_fst ..
        rw [value?_eq, hfresh] at hk
        cases hk
      have hsame : (t.linked p u hash).chains.element? k = t.chains.element? k := by
        rw [linked, Chains.element?_insertAt]
        exact if_neg hne
      refine Or.inl ?_
      rw [Table.value?, hsame]
      exact hk
  | @unlink j e allowed wellFormed live =>
      rw [Table.value?, without, wellFormed.element?_without]
      split
      · exact Or.inr ⟨allowed, rfl⟩
      · exact Or.inl hk
  | edit allowed wellFormed live => cases allowed

theorem Later.spent (h : t.Later t') (hk : t.value? k = some v) (hk' : t'.value? k = none) :
    t'.chains.nodes.Spent k := by
  rw [value?_eq] at hk hk'
  obtain ⟨n, hn, -⟩ := Option.map_eq_some_iff.1 hk
  have hnone := Option.map_eq_none_iff.1 hk'
  rcases h.follows.live k (by rw [hn]; rfl) with hlive | hspent
  · rw [hnone] at hlive
    cases hlive
  · exact hspent

/-- Changes without edits leave an element with its value, or take it out for good. -/
theorem Changes.value? (h : Changes removal false t t') (hk : t.value? k = some v) :
    t'.value? k = some v ∨ (removal = true ∧ t'.chains.nodes.Spent k) := by
  induction h with
  | refl => exact Or.inl hk
  | tail hchanges hchange ih =>
      rcases ih with hv | ⟨hremoval, hspent⟩
      · rcases hchange.value? hv with hv' | ⟨hremoval, hnone⟩
        · exact Or.inl hv'
        · exact Or.inr ⟨hremoval, hchange.later.spent hv hnone⟩
      · exact Or.inr ⟨hremoval, hchange.later.follows.spent k hspent⟩

theorem value?_edited (t : Table V) (k : ArenaKey) (f : V → V) (j : ArenaKey) :
    (t.edited k f).value? j = (t.value? j).map fun v => if j = k then f v else v := by
  rw [value?_eq, value?_eq, get?_edited, Option.map_map, Option.map_map]
  rfl

theorem value?_withoutAll (hwf : t.chains.WellFormed) (ks : List ArenaKey) (j : ArenaKey) :
    (t.withoutAll ks).value? j = if j ∈ ks then none else t.value? j := by
  rw [value?, withoutAll, hwf.element?_withoutAll]
  split
  · rfl
  · rfl

theorem value?_without (hwf : t.chains.WellFormed) (k j : ArenaKey) :
    (t.without k).value? j = if j = k then none else t.value? j := by
  have hone := value?_withoutAll hwf [k] j
  simp only [List.mem_singleton] at hone
  exact hone

/-! ## Taking elements out -/

/-- Of the elements of `t` those in `es` are missing in `t'`, and no others. -/
def Lacks (t t' : Table V) (es : List (Element V)) : Prop :=
  ∀ k v, t.value? k = some v → (t'.value? k = none ↔ k ∈ Chains.keysOf es)

theorem lacks_withoutAll (hwf : t.chains.WellFormed) (es : List (Element V)) :
    t.Lacks (t.withoutAll (Chains.keysOf es)) es := by
  intro k v hk
  rw [value?_withoutAll hwf, hk]
  split
  · exact iff_of_true rfl ‹_›
  · exact iff_of_false nofun ‹_›

variable {env : Environment V K W} {es : List (Element V)} {w : W}

/-- The elements `es` are gone from `t` when an operation has ended. If it panics, then there were
none to take out, or it was cut at one of them. -/
def Sheds (env : Environment V K W) (t : Table V) (es : List (Element V)) :
    EStateM.Result Panic (Running V W) α → Prop
  | .ok _ s => s.table = t.withoutAll (Chains.keysOf es)
  | .error p s => (es = [] ∧ s.table = t)
      ∨ ∃ f xs e ys, es = xs ++ e :: ys ∧ CutAt env f t xs e p s.table

theorem Sheds.return {op : Op W V α} {s : Running V W} (h : Sheds env t es (op s)) (g : α → β) :
    Sheds env t es ((do return g (← op) : Op W V β) s) := by
  cases hrun : op s with
  | ok a s' =>
      rw [hrun] at h
      rw [Op.run_bind_ok hrun]
      exact h
  | error p s' =>
      rw [hrun] at h
      rw [Op.run_bind_error hrun]
      exact h

/-- A loop that takes elements out takes them out, and if it panics it is cut at one of them. -/
theorem sheds_takeOut (ht : t.Sound) (es : List (Element V)) (w : W) :
    Sheds env t es (takeOut env es ⟨t, w⟩) := by
  have hspec := takeOut_spec (f := none) env es t w
  rw [fencedBy_eq ht.fence] at hspec
  cases hrun : takeOut env es ⟨t, w⟩ with
  | ok u s =>
      rw [hrun] at hspec
      exact Eq.trans hspec (fencedBy_eq ht.fence)
  | error p s =>
      rw [← fencedBy_eq ht.fence] at hrun
      obtain ⟨xs, e, ys, t', hsplit, htable, hcut⟩ := cutAt_of_takeOut ht.wellFormed hrun
      rw [fencedBy_eq (hcut.fence.trans ht.fence)] at htable
      exact Or.inr ⟨none, xs, e, ys, hsplit, htable ▸ hcut⟩

/-- An operation that comes to lack `es` whenever it answers sheds them if its panics are cuts. -/
theorem sheds_of_keeps (ht : t.Sound) {op : Op W V α} {answer : α → Prop}
    (hkeeps : (Contract.wild (fun _ => True) fun _ => True : Contract V K W).Keeps none 0 t op
      (Contract.still (t.withoutAll (Chains.keysOf es)) answer))
    (hpanics : ∀ p s, op ⟨t, w⟩ = .error p s →
      ∃ f xs e ys, es = xs ++ e :: ys ∧ CutAt env f t xs e p s.table) :
    Sheds env t es (op ⟨t, w⟩) := by
  cases hrun : op ⟨t, w⟩ with
  | ok a s =>
      obtain ⟨d, t', htable, -, -, -, rfl, -⟩ :=
        hkeeps.of_run_ok ht.fence ht.wellFormed trivial hrun
      exact htable.trans (fencedBy_eq ht.fence)
  | error p s => exact Or.inr (hpanics p s hrun)

theorem sheds_erase (ht : t.Sound) {c : Cursor} {k : ArenaKey} {n : Node V}
    (hcell : t.cell c = .ok (k, n)) (w : W) :
    Sheds env t [.ofCell (k, n)] (erase env c ⟨t, w⟩) :=
  sheds_of_keeps ht
    (keeps_erase (Contract.obeyed_anything env fun _ => True) (fun _ _ _ _ _ _ _ => trivial) hcell)
    fun _ _ hrun => ⟨none, [], _, [], rfl, cutAt_of_erase ht.fence ht.wellFormed hcell hrun⟩

theorem sheds_remove (ht : t.Sound) {c : Cursor} {k : ArenaKey} {n : Node V}
    (hcell : t.cell c = .ok (k, n)) (w : W) :
    Sheds env t [.ofCell (k, n)] (remove env c ⟨t, w⟩) :=
  sheds_of_keeps ht
    (keeps_remove (Contract.obeyed_anything env fun _ => True) (fun _ _ _ _ _ _ _ => trivial)
      hcell)
    fun _ _ hrun => ⟨none, [], _, [], rfl, cutAt_of_remove ht.fence ht.wellFormed hcell hrun⟩

/-- The elements of the run of `q`, if it is found when it is sought in the name of `op`. -/
def soughtRun (env : Environment V K W) (op : Operation) (q : K) (t : Table V) (w : W) :
    List (Element V) :=
  match Op.fenced op (runOf env q) ⟨t, w⟩ with
  | .ok (some r) _ => t.along r
  | _ => []

theorem sheds_eraseRun (ht : t.Sound) (q : K) (w : W) :
    Sheds env t (soughtRun env .eraseRun q t w) (eraseRun env q ⟨t, w⟩) := by
  have hsought := runOf_spec env ht.fence ht.wellFormed .eraseRun q w
  unfold soughtRun eraseRun
  rcases hrun : Op.fenced .eraseRun (runOf env q) ⟨t, w⟩ with ⟨r | r, ⟨m, w'⟩⟩ | ⟨p, s⟩
  · rw [hrun] at hsought
    rw [Op.run_bind_ok hrun]
    exact hsought.1
  · rw [hrun] at hsought
    obtain ⟨rfl, hash, xs, ms, ys, hspans⟩ : m = t ∧ _ := hsought
    have hdown : m.fencedBy none = m := fencedBy_eq ht.fence
    have halong : Sheds env m (m.along r) (eraseAlong env r.count (some r.first) ⟨m, w'⟩) := by
      rw [← hdown, eraseAlong_run ht.wellFormed hspans w', hdown,
        along_of_spans ht.wellFormed hspans]
      exact sheds_takeOut ht ms w'
    rw [Op.run_bind_ok hrun]
    exact halong.return fun _ => r.count
  · rw [hrun] at hsought
    rw [Op.run_bind_error hrun]
    exact Or.inl ⟨rfl, hsought⟩

theorem live_soughtRun (ht : t.Sound) (op : Operation) (q : K) (w : W) :
    ∀ e ∈ soughtRun env op q t w, t.chains.element? e.key = some e := by
  have hsought := runOf_spec env ht.fence ht.wellFormed op q w
  unfold soughtRun
  rcases hrun : Op.fenced op (runOf env q) ⟨t, w⟩ with ⟨r | r, s⟩ | ⟨p, s⟩
  · exact nofun
  · rw [hrun] at hsought
    obtain ⟨-, hash, xs, ms, ys, hspans⟩ := hsought
    simp only [along_of_spans ht.wellFormed hspans]
    exact (live_of_spans ht.wellFormed hspans).1
  · exact nofun

theorem sheds_clear (ht : t.Sound) (w : W) :
    Sheds env t t.chains.elements (clear env ⟨t, w⟩) := by
  refine sheds_of_keeps ht
    (keeps_clear (Contract.obeyed_anything env fun _ => True) fun _ _ _ _ _ _ _ => trivial) ?_
  intro p s hrun
  cases clearCut_of_clear ht.fence ht.wellFormed hrun with
  | clearing elements cut left => exact ⟨_, _, _, _, elements, cut⟩

/-- A clearing that answers has taken out all elements. -/
theorem cleared_of_clear (ht : t.Sound) {s : Running V W} (hrun : clear env ⟨t, w⟩ = .ok () s) :
    s.table = t.withoutAll (Chains.keysOf t.chains.elements) := by
  have hsheds : Sheds env t t.chains.elements (clear env ⟨t, w⟩) := sheds_clear ht w
  rwa [hrun] at hsheds

end Table

/-! ## Over one command -/

namespace Command

variable {env : Environment V K W} {cmd : Command V K} {t t' : Table V} {k : ArenaKey} {v : V}

/-- What a command makes of the value of the element that `k` names: at a cursor that is accepted
and names it, a replacement does its work. -/
def edit (cmd : Command V K) (t : Table V) (k : ArenaKey) (v : V) : V :=
  match cmd with
  | modify c f =>
    match t.cell c with
    | .ok (j, _) => if k = j then f v else v
    | .error _ => v
  | _ => v

theorem run_modify {c : Cursor} {n : Node V} (hcell : t.cell c = .ok (k, n)) (f : V → V) (w : W) :
    (modify c f).run env ⟨t, w⟩ = .ok .done ⟨t.edited k f, w⟩ := by
  have hupdate : (Op.update fun t => (t.modify c f).map fun t => ((), t) : Op W V Unit) ⟨t, w⟩
      = .ok () ⟨t.edited k f, w⟩ := by
    rw [Op.update]
    simp only [Table.modify_eq hcell]
    rfl
  show EStateM.bind _ _ _ = _
  rw [EStateM.bind, hupdate]
  rfl

/-- A command leaves an element with the value that it makes of it, or removes the element. -/
theorem Takes.value? (h : cmd.Takes env t t') (ht : t.Sound) (hk : t.value? k = some v) :
    t'.value? k = some (cmd.edit t k v)
      ∨ (cmd.isRemoval = true ∧ t'.chains.nodes.Spent k) := by
  have hchanges := (h.changes ht).1
  cases cmd with
  | modify c f =>
      obtain ⟨w, w', hrun⟩ := h
      refine Or.inl ?_
      rw [edit]
      cases hcell : t.cell c with
      | ok cell =>
          have hmodify : (modify c f).run env ⟨t, w⟩ = _ := run_modify hcell f w
          rw [hmodify] at hrun
          rcases hrun with ⟨a, hrun⟩ | ⟨p, hrun⟩
          · cases hrun
            rw [Table.value?_edited, hk]
            rfl
          · cases hrun
      | error q =>
          have hreject : (modify c f).run env ⟨t, w⟩ = .error q ⟨t, w⟩ :=
            run_of_cell_error rfl hcell
          rw [hreject] at hrun
          rcases hrun with ⟨a, hrun⟩ | ⟨p, hrun⟩
          · cases hrun
          · cases hrun
            exact hk
  | _ => exact hchanges.value? hk

/-! ## What a command takes out -/

/-- The elements that a command sets out to take out, in the order in which it does: the one at a
cursor that is accepted, the run that it finds, or all. -/
def targets (env : Environment V K W) (w : W) (t : Table V) : Command V K → List (Element V)
  | erase c | remove c =>
    match t.cell c with
    | .ok cell => [.ofCell cell]
    | .error _ => []
  | eraseRun q => Table.soughtRun env .eraseRun q t w
  | clear => t.chains.elements
  | _ => []

/-- A command takes its targets out of the table and nothing else. If it panics, it had none, or has
failed on the value of one of them, which is gone with those before it and none of those after. -/
structure TakesOut (env : Environment V K W) (w : W) (t : Table V) (cmd : Command V K) :
    Prop where
  held : ∀ e ∈ cmd.targets env w t, t.chains.element? e.key = some e
  out : match cmd.run env ⟨t, w⟩ with
    | .ok _ s => t.Lacks s.table (cmd.targets env w t)
    | .error p s => (cmd.targets env w t = [] ∧ t.Lacks s.table [])
        ∨ ∃ f xs e ys, cmd.targets env w t = xs ++ e :: ys ∧ t.Lacks s.table (xs ++ [e])
          ∧ env.FailsOn (s.table.fencedBy f) e.value p

open Table

theorem takesOut_of_sheds (ht : t.Sound) {w : W}
    (hheld : ∀ e ∈ cmd.targets env w t, t.chains.element? e.key = some e)
    (h : Sheds env t (cmd.targets env w t) (cmd.run env ⟨t, w⟩)) : cmd.TakesOut env w t := by
  refine ⟨hheld, ?_⟩
  cases hrun : cmd.run env ⟨t, w⟩ with
  | ok a s =>
      rw [hrun] at h
      show t.Lacks s.table _
      rw [show s.table = _ from h]
      exact lacks_withoutAll ht.wellFormed _
  | error p s =>
      rw [hrun] at h
      rcases h with ⟨hnone, htable⟩ | ⟨f, xs, e, ys, hsplit, hcut⟩
      · refine Or.inl ⟨hnone, ?_⟩
        rw [htable]
        exact lacks_withoutAll ht.wellFormed []
      · refine Or.inr ⟨f, xs, e, ys, hsplit, ?_, hcut.panics⟩
        rw [hcut.table]
        exact lacks_withoutAll ht.wellFormed _

/-- A command at a cursor has a target exactly if the cursor is accepted. -/
theorem takesOut_at (ht : t.Sound) {c : Cursor} {w : W} (htarget : cmd.target? = some c)
    (htargets : cmd.targets env w t = match t.cell c with
      | .ok cell => [.ofCell cell]
      | .error _ => [])
    (hsheds : ∀ k n, t.cell c = .ok (k, n) →
      Sheds env t [.ofCell (k, n)] (cmd.run env ⟨t, w⟩)) : cmd.TakesOut env w t := by
  cases hcell : t.cell c with
  | error p =>
      simp only [hcell] at htargets
      refine takesOut_of_sheds ht ?_ ?_
      · rw [htargets]
        exact nofun
      · rw [htargets, run_of_cell_error htarget (s := ⟨t, w⟩) hcell]
        exact Or.inl ⟨rfl, rfl⟩
  | ok cell =>
      simp only [hcell] at htargets
      obtain ⟨k, n⟩ := cell
      refine takesOut_of_sheds ht ?_ ?_
      · rw [htargets]
        intro e he
        obtain rfl := List.mem_singleton.1 he
        exact Chains.element?_eq_some.2 ⟨n, (element?_of_cell hcell).2, rfl⟩
      · rw [htargets]
        exact hsheds k n hcell

theorem takesOut_of_still (ht : t.Sound) {w : W} (hremoval : cmd.isRemoval = false)
    (htargets : cmd.targets env w t = []) : cmd.TakesOut env w t := by
  have hlacks : ∀ t', cmd.Takes env t t' → t.Lacks t' [] := by
    intro t' htakes k v hk
    rcases htakes.value? ht hk with hv | ⟨htrue, -⟩
    · rw [hv]
      exact iff_of_false nofun nofun
    · rw [hremoval] at htrue
      cases htrue
  refine ⟨by rw [htargets]; exact nofun, ?_⟩
  rw [htargets]
  cases hrun : cmd.run env ⟨t, w⟩ with
  | ok a s => exact hlacks s.table ⟨w, s.world, Or.inl ⟨a, hrun⟩⟩
  | error p s => exact Or.inl ⟨rfl, hlacks s.table ⟨w, s.world, Or.inr ⟨p, hrun⟩⟩⟩

theorem takesOut (ht : t.Sound) (env : Environment V K W) (cmd : Command V K) (w : W) :
    cmd.TakesOut env w t := by
  cases cmd with
  | erase c =>
      exact takesOut_at ht rfl rfl fun k n hcell => (sheds_erase ht hcell w).return Answer.cursor
  | remove c =>
      exact takesOut_at ht rfl rfl fun k n hcell => (sheds_remove ht hcell w).return Answer.value
  | eraseRun q =>
      exact takesOut_of_sheds ht (live_soughtRun ht .eraseRun q w)
        ((sheds_eraseRun ht q w).return Answer.number)
  | clear =>
      exact takesOut_of_sheds ht (fun e he => ht.wellFormed.mem_elements_iff.1 he)
        ((sheds_clear ht w).return fun _ => Answer.done)
  | _ => exact takesOut_of_still ht rfl rfl

theorem takes_left (env : Environment V K W) (cmd : Command V K) (t : Table V) (w : W) :
    cmd.Takes env t (Op.left (cmd.run env ⟨t, w⟩)) := by
  cases hrun : cmd.run env ⟨t, w⟩ with
  | ok a s => exact ⟨w, s.world, Or.inl ⟨a, hrun⟩⟩
  | error p s => exact ⟨w, s.world, Or.inr ⟨p, hrun⟩⟩

theorem TakesOut.mem_of_none {w : W} (h : cmd.TakesOut env w t) (hk : t.value? k = some v)
    (hnone : (Op.left (cmd.run env ⟨t, w⟩)).value? k = none) :
    k ∈ Chains.keysOf (cmd.targets env w t) := by
  have hout := h.out
  cases hrun : cmd.run env ⟨t, w⟩ with
  | ok a s =>
      rw [hrun] at hout hnone
      exact (hout k v hk).1 hnone
  | error p s =>
      rw [hrun] at hout hnone
      rcases hout with ⟨-, hlacks⟩ | ⟨f, xs, e, ys, hsplit, hlacks, -⟩
      · cases (hlacks k v hk).1 hnone
      · have hgone := (hlacks k v hk).1 hnone
        rw [hsplit, List.append_cons, Chains.keysOf, List.map_append]
        exact List.mem_append_left _ hgone

/-- An element has the value that the command makes of it, or it was one of its targets and is gone
for good. -/
theorem value?_left (ht : t.Sound) (env : Environment V K W) (cmd : Command V K) (w : W)
    (hk : t.value? k = some v) :
    (Op.left (cmd.run env ⟨t, w⟩)).value? k = some (cmd.edit t k v)
      ∨ (k ∈ Chains.keysOf (cmd.targets env w t)
        ∧ (Op.left (cmd.run env ⟨t, w⟩)).chains.nodes.Spent k) := by
  rcases (takes_left env cmd t w).value? ht hk with hv | ⟨-, hspent⟩
  · exact Or.inl hv
  · exact Or.inr ⟨(takesOut ht env cmd w).mem_of_none hk (value?_of_spent hspent), hspent⟩

end Command

end SeparateChaining
