import SeparateChaining.Proofs.Contract.Heeding
import SeparateChaining.Proofs.History
import SeparateChaining.Proofs.Outcome
import SeparateChaining.Proofs.Room

/-!
# What coherent policies make of tables

Under coherent policies more holds of a table than that its chains are
well formed (`Regular`): it is keyed, its bucket count is a rung of the
ladder that its size does not exceed unless the ladder ends there, and,
as long as nothing is linked beside its equals, no two elements have
equal keys. Each change of a table has one law. A link needs what is
known at its place: the key was sought, and there is room. Since the
contract of an environment that heeds the policies speaks of every way
out of an operation, so does what follows for commands
(`Regular.takes`), whether storage is refused or foreign code panics.
-/

namespace SeparateChaining

variable {V K W : Type}

namespace Table

variable {p : Policies V K} {t t' : Table V} {unique : Bool}

/-- No two elements have equal keys. -/
def Distinct (p : Policies V K) (t : Table V) : Prop :=
  ∀ e ∈ t.chains.elements, ∀ e' ∈ t.chains.elements,
    p.hasKey (p.extract e.value) e'.value = true → e = e'

/-- What a table is under coherent policies. The flag says that no key may be there twice. -/
structure Regular (p : Policies V K) (unique : Bool) (t : Table V) : Prop where
  keyed : t.Keyed p
  rung : t.bucketCount ∈ Ladder.rungs
  room : t.HasRoom t.size
  distinct : unique = true → t.Distinct p

theorem Regular.roomy (h : t.Regular p unique) : t.Roomy := ⟨h.rung, h.room⟩

/-! ## Keys that differ -/

theorem Distinct.subset (h : t.Distinct p)
    (hsub : ∀ e ∈ t'.chains.elements, e ∈ t.chains.elements) : t'.Distinct p :=
  fun e he e' he' => h e (hsub e he) e' (hsub e' he')

theorem Distinct.linked (h : t.Distinct p) (hp : p.Coherent) (hwf : t.chains.WellFormed) {v : V}
    {hash : UInt64} {place : Chains.Place} (hfits : t.Fits hash place)
    (hnew : ∀ e ∈ t.chains.elements, p.hasKey (p.extract v) e.value = false) :
    (t.linked place v hash).Distinct p := by
  have hcontent := content_linked hwf hfits v
  have hmem : ∀ e ∈ (t.linked place v hash).chains.elements,
      e = ⟨t.linkedKey place v hash, v, hash⟩ ∨ e ∈ t.chains.elements := by
    intro e he
    have he' : e ∈ (t.linked place v hash).chains.content := he
    rwa [hcontent, Multiset.mem_cons] at he'
  intro e he e' he' hkeys
  rcases hmem e he with rfl | hold
  · rcases hmem e' he' with rfl | hold'
    · rfl
    · rw [hnew e' hold'] at hkeys
      cases hkeys
  · rcases hmem e' he' with rfl | hold'
    · have hback : p.hasKey (p.extract v) e.value = true := hp.symm _ _ hkeys
      rw [hnew e hold] at hback
      cases hback
    · exact h e hold e' hold' hkeys

theorem Distinct.revalued (h : t.Distinct p) (hp : p.Coherent) (hwf : t.chains.WellFormed)
    {g : ArenaKey → V → V} (hg : t.Revalued p g t') : t'.Distinct p := by
  intro e he e' he' hkeys
  obtain ⟨x, hx, rfl⟩ := hg.mem_elements hwf he
  obtain ⟨y, hy, rfl⟩ := hg.mem_elements hwf he'
  have hback : p.hasKey (p.extract x.value) y.value = true := by
    rw [← hp.hasKey_congr (hg.keys y hy)]
    exact hp.trans _ _ _ hkeys (hg.keys x hx)
  rw [h x hx y hy hback]

/-- The keys of the values differ pair by pair. -/
theorem Distinct.pairwise (h : t.Distinct p) (hwf : t.chains.WellFormed) :
    t.values.Pairwise fun u v => p.keyEq (p.extract u) (p.extract v) = false := by
  have hnodup : t.chains.elements.Nodup := List.Nodup.of_map _ hwf.nodup_elements
  rw [values, ← Chains.map_value_elements, List.pairwise_map]
  refine hnodup.imp_of_mem ?_
  intro e e' he he' hne
  refine Bool.eq_false_of_not_eq_true fun hkeys => hne ?_
  exact (h e' he' e he hkeys).symm

/-! ## Each change -/

theorem regular_ofBuckets (p : Policies V K) (unique : Bool) (id capacity : Nat) :
    (ofBuckets id (.replicate (Ladder.fit capacity)) : Table V).Regular p unique := by
  have hpos := (Ladder.bounds_fit capacity).1
  obtain ⟨hrung, hroom⟩ := roomy_ofBuckets (V := V) id capacity
  refine ⟨keyed_ofBuckets p id hpos, hrung, hroom, fun _ e he => ?_⟩
  obtain ⟨i, hi⟩ := (Chains.arranged_ofBuckets hpos).mem_elements.1 he
  cases hi

theorem Regular.fencedBy (h : t.Regular p unique) (f : Option Operation) :
    (t.fencedBy f).Regular p unique :=
  ⟨⟨h.keyed.hashed, h.keyed.grouped⟩, h.rung, h.room, h.distinct⟩

theorem Regular.grown (h : t.Regular p unique) (hp : p.Coherent) (hwf : t.chains.WellFormed)
    {n : Nat} (hrung : n ∈ Ladder.rungs) (hmore : t.bucketCount < n) (hgrown : t.Grown n t') :
    t'.Regular p unique := by
  have hwide : t.Widened t' := Or.inr ⟨n, hmore, hgrown⟩
  obtain ⟨hrung', hroom'⟩ := h.roomy.grown hrung hmore hgrown
  refine ⟨h.keyed.widened hp hwf hwide, hrung', hroom', fun hunique => ?_⟩
  refine (h.distinct hunique).subset fun e he => ?_
  have he' : e ∈ t'.chains.content := he
  rwa [hwide.content hwf] at he'

/-- A value may be linked where it was sought, and where nothing is to be there twice, alone. -/
theorem Regular.linked (h : t.Regular p unique) (hp : p.Coherent) {C : Contract V K W}
    (hC : C.Says p) {beside : Bool} (hbeside : unique = true → beside = false)
    (hwf : t.chains.WellFormed) (hroom : t.HasRoom (t.size + 1)) {v : V} {hash : UInt64}
    {place : Chains.Place} (hsought : C.Sought beside t v hash place) :
    (t.linked place v hash).Regular p unique := by
  obtain ⟨hrung, hroom'⟩ := h.roomy.linked hroom place v hash
  cases hsought with
  | alone key hashed new =>
      obtain rfl := hC.key key
      obtain rfl := hC.hash hashed
      have hnew := h.keyed.none_of_firstMatch hp hC hwf new
      exact ⟨h.keyed.linked_home hp hwf hnew, hrung, hroom',
        fun hunique => (h.distinct hunique).linked hp hwf (t.fits_homePlace _) hnew⟩
  | beside allowed key hashed found =>
      obtain rfl := hC.key key
      obtain rfl := hC.hash hashed
      obtain ⟨xs, e, ys, hrow, rfl, hq⟩ := match_of_firstMatch hC found
      refine ⟨h.keyed.linked_after hp hwf hrow hq, hrung, hroom', fun hunique => ?_⟩
      rw [hbeside hunique] at allowed
      cases allowed

theorem Regular.without (h : t.Regular p unique) (hwf : t.chains.WellFormed) {k : ArenaKey}
    {e : Element V} (he : t.chains.element? k = some e) : (t.without k).Regular p unique := by
  obtain ⟨hrung, hroom⟩ := h.roomy.without hwf he
  refine ⟨h.keyed.without hwf k, hrung, hroom, fun hunique => ?_⟩
  refine (h.distinct hunique).subset fun x hx => ?_
  have hx' : x ∈ (t.chains.without k).content := hx
  have hcontent : t.chains.content = e ::ₘ (t.chains.without k).content :=
    hwf.content_without he
  show x ∈ t.chains.content
  rw [hcontent]
  exact Multiset.mem_cons_of_mem hx'

theorem Regular.revalued (h : t.Regular p unique) (hp : p.Coherent) (hwf : t.chains.WellFormed)
    {g : ArenaKey → V → V} (hg : t.Revalued p g t') (hcount : t'.bucketCount = t.bucketCount)
    (hsize : t'.size = t.size) : t'.Regular p unique := by
  obtain ⟨hrung, hroom⟩ := h.roomy.of_le hcount hsize.le
  exact ⟨h.keyed.revalued hp hwf hg, hrung, hroom,
    fun hunique => (h.distinct hunique).revalued hp hwf hg⟩

/-- A copy has the keys of its original. -/
theorem Regular.withValues (h : t.Regular p unique) (hp : p.Coherent) (hwf : t.chains.WellFormed)
    {vs : List V}
    (hvs : List.Forall₂ (fun v u => p.hasKey (p.extract v) u = true) t.slotValues vs) (id : Nat) :
    (t.withValues id vs).Regular p unique := by
  classical
  -- the value that a node of the copy has, for each key of a live node
  have hcopy : ∀ k, ∃ g : V → V, (t.withValues id vs).chains.nodes.get? k
        = (t.chains.nodes.get? k).map (fun n => { n with value := g n.value })
      ∧ ∀ n, t.chains.nodes.get? k = some n →
          p.hasKey (p.extract n.value) (g n.value) = true := by
    intro k
    cases hn : t.chains.nodes.get? k with
    | none =>
        obtain ⟨g, hg⟩ := get?_withValues t id vs k
        rw [hn] at hg
        exact ⟨g, hg, fun n hn => by cases hn⟩
    | some n =>
        obtain ⟨u, hu, hnew⟩ := get?_withValues_of_forall₂ hvs id hn
        refine ⟨fun _ => u, hnew, fun m hm => ?_⟩
        cases hm
        exact hu
  choose g hget hkeys using hcopy
  exact h.revalued hp hwf (revalued_of_get? hwf rfl hget hkeys) rfl (size_withValues t id vs)

end Table

/-! ## Commands -/

namespace Contract

variable {env : Environment V K W} {p : Policies V K} {unique : Bool} {cmd : Command V K}

open Table

theorem suits_heeding (henv : env.Heeds p) (hp : p.Coherent)
    (hbeside : unique = true → cmd.isInsertAny = false) (hedit : cmd.isEdit = false) :
    (heeding env.Panics p (Regular p unique)).Suits env cmd where
  obeyed := obeyed_heeding henv (fun _ hq => Or.inr hq) _
  grows := .of_tables (fun _ _ _ => Iff.rfl)
    fun _ _ _ hwf hrung hmore hgrown h => h.grown hp hwf hrung hmore hgrown
  links _ _ _ _ _ hwf hroom hsought h := h.linked hp says_heeding hbeside hwf hroom hsought
  unlinks _ _ _ _ _ hwf he h := h.without hwf he
  edits h := by
    rw [hedit] at h
    cases h
  misuse _ hq := Or.inl hq

end Contract

namespace Table

variable {env : Environment V K W} {p : Policies V K} {unique : Bool} {cmd : Command V K}
  {t t' : Table V}

open Contract Command

/-- A replacement that keeps the key. -/
theorem Regular.modify (h : t.Regular p unique) (hp : p.Coherent) (ht : t.Sound) {c : Cursor}
    {f : V → V} (hkeys : (Command.modify c f : Command V K).KeepsKeys p t)
    (htakes : (Command.modify c f).Takes env t t') : t'.Regular p unique := by
  have hwf := ht.wellFormed
  cases hcell : t.cell c with
  | error q =>
      obtain rfl : t' = t := by
        rcases htakes with ⟨w, w', ⟨a, hrun⟩ | ⟨q', hrun⟩⟩
        · rw [run_of_cell_error rfl (s := ⟨t, w⟩) hcell] at hrun
          cases hrun
        · rw [run_of_cell_error rfl (s := ⟨t, w⟩) hcell] at hrun
          cases hrun
          rfl
      exact h
  | ok cell =>
      obtain ⟨k, n⟩ := cell
      obtain rfl : t' = t.edited k f := by
        rcases htakes with ⟨w, w', ⟨a, hrun⟩ | ⟨q', hrun⟩⟩
        · rw [run_modify hcell] at hrun
          cases hrun
          rfl
        · rw [run_modify hcell] at hrun
          cases hrun
      have hn := (element?_of_cell hcell).2
      have hget : t.get c = .ok n.value := by
        rw [Table.get, hcell]
        rfl
      exact h.revalued hp hwf (revalued_edited hp hwf hn (hkeys n.value hget)) rfl
        (size_edited t k f)

/-- Whatever a command comes to, if it changes no key it leaves a regular table regular. -/
theorem Regular.takes (h : t.Regular p unique) (hp : p.Coherent) (henv : env.Heeds p)
    (ht : t.Sound) (hbeside : unique = true → cmd.isInsertAny = false)
    (hkeys : cmd.KeepsKeys p t) (htakes : cmd.Takes env t t') : t'.Regular p unique := by
  cases hedit : cmd.isEdit with
  | true =>
      cases cmd with
      | modify c f => exact h.modify hp ht hkeys htakes
      | _ => cases hedit
  | false =>
      obtain ⟨w, w', hrun⟩ := htakes
      have hkeeps := keeps_run (t := t) cmd (suits_heeding henv hp hbeside hedit)
      rcases hrun with ⟨a, hrun⟩ | ⟨q, hrun⟩
      · obtain ⟨d, m, rfl, hregular, -⟩ := hkeeps.of_run_ok ht.fence ht.wellFormed h hrun
        exact Regular.fencedBy hregular none
      · obtain ⟨m, rfl, hregular, -⟩ := hkeeps.of_run_error ht.fence ht.wellFormed h hrun
        exact Regular.fencedBy hregular none

end Table

end SeparateChaining
