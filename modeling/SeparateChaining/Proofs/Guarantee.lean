import SeparateChaining.Proofs.Refusal
import SeparateChaining.Proofs.Spending

/-!
# Insertions on a budget

An insertion may ask a budget twice, for the buckets of a larger array
and then for a node. The second is never refused after the first was
granted: the old buckets are returned in between, and they were live, so
there is at least one unit for the node. Hence an insertion that is
refused has changed nothing, and when it is refused can be said in
advance (`Table.Short`). That the old buckets are live in the budget is
what the accounts of the whole run say, so the theorem is about runs
(`Store.rationed_after`).
-/

namespace SeparateChaining

variable {V K W α : Type} {budget : W → Budget}

namespace Table

variable {env : Environment V K W} {p : Policies V K} {t m : Table V} {b b' : Budget}
  {f : Option Operation}

/-! ## Linking a node -/

theorem spends_refuse (henv : env.Rations budget p) (v : V) (e : AllocError) :
    Spends budget (refuse env v e : Op W V (Except AllocError α)) t b (.error e) t b :=
  (spends_disposeOp henv v).bind .pure

theorem spends_reserveNode (henv : env.Rations budget p) :
    Spends budget (reserveNode env) t b true t b := by
  unfold reserveNode
  refine (Spends.read _).bind ?_
  show Spends budget (if t.chains.nodes.isFull then _ else _) t b true t b
  split
  · exact .world (henv.pays_reserveBytes _)
  · exact .pure

theorem spends_grantNode (henv : env.Rations budget p) (v : V) (h : b.available ≠ 0) :
    Spends budget (grantNode env v) t b (.ok ()) t (b.grant .node 1) := by
  have hone : 1 ≤ b.available.toNat :=
    Nat.one_le_iff_ne_zero.2 fun hzero => h (UInt64.toNat_inj.1 hzero)
  unfold grantNode
  refine ((Spends.world (henv.pays_granted hone)).onPanic _).bind ?_
  exact ((spends_reserveNode henv).onPanic _).bind .pure

theorem spends_grantNode_refused (henv : env.Rations budget p) (v : V) (h : b.available = 0) :
    Spends budget (grantNode env v) t b (.error (.exhausted 1 0)) t b.refuse := by
  have hnone : b.available.toNat = 0 := congrArg UInt64.toNat h
  have hrequest : Pays budget (env.request .node 1) b _ b.refuse :=
    henv.pays_refused (by omega)
  rw [hnone] at hrequest
  unfold grantNode
  exact ((Spends.world hrequest).onPanic _).bind (spends_refuse henv v _)

theorem spends_requirePlace (p : Policies V K) (hwf : t.chains.WellFormed) {hash : UInt64}
    {place : Chains.Place} (hfits : t.Fits hash place) :
    Spends budget (requirePlace place : Op W V Unit) (t.fencedBy f) b () (t.fencedBy f) b :=
  (keeps_requirePlace (C := .asking budget p t b) hfits).spends hwf fun _ _ => rfl

theorem spends_link (henv : env.Rations budget p) (hwf : t.chains.WellFormed) {hash : UInt64}
    {place : Chains.Place} (hfits : t.Fits hash place) (v : V) (h : b.available ≠ 0) :
    Spends budget (link env place v hash) (t.fencedBy f) b
      (.ok (t.cursor (some (t.linkedKey place v hash)))) ((t.linked place v hash).fencedBy f)
      (b.grant .node 1) := by
  unfold link
  refine ((spends_requirePlace p hwf hfits).onPanic _).bind ?_
  refine (spends_grantNode henv v h).bind ?_
  exact (Spends.change _).bind ((Spends.read _).bind .pure)

theorem spends_link_refused (henv : env.Rations budget p) (hwf : t.chains.WellFormed)
    {hash : UInt64} {place : Chains.Place} (hfits : t.Fits hash place) (v : V)
    (h : b.available = 0) :
    Spends budget (link env place v hash) (t.fencedBy f) b (.error (.exhausted 1 0))
      (t.fencedBy f) b.refuse := by
  unfold link
  refine ((spends_requirePlace p hwf hfits).onPanic _).bind ?_
  exact (spends_grantNode_refused henv v h).bind .pure

/-! ## Insertion -/

theorem spends_prepare (henv : env.Rations budget p) (hwf : m.chains.WellFormed)
    (hfence : m.fence = none) (op : Operation) (v : V)
    (hroom : Spends budget (rehash env (t.size + 1)) t b (.ok ()) m b') :
    Spends budget (prepare env op v) t b
      (.ok (p.hash (p.extract v), m.firstMatch? p (p.extract v))) m b' := by
  have hroom' : Spends budget (do rehash env ((← .read (·.size)) + 1)) t b (.ok ()) m b' :=
    (Spends.read _).bind hroom
  unfold prepare
  exact (hroom'.onPanic _).bind (((spends_seek henv hwf hfence op v).onPanic _).bind .pure)

theorem spends_prepare_refused (henv : env.Rations budget p) (op : Operation) (v : V)
    {e : AllocError} (hroom : Spends budget (rehash env (t.size + 1)) t b (.error e) m b') :
    Spends budget (prepare env op v) t b (.error e) m b' := by
  have hroom' : Spends budget (do rehash env ((← .read (·.size)) + 1)) t b (.error e) m b' :=
    (Spends.read _).bind hroom
  unfold prepare
  exact (hroom'.onPanic _).bind (spends_refuse henv v e)

/-- An operation that the budget refuses exactly if `short` holds, and that changes nothing then but
the count of refusals. -/
def Rationed (budget : W → Budget) (op : Op W V (Except AllocError α)) (t : Table V) (b : Budget)
    (short : Prop) : Prop :=
  ∃ r t' b', Spends budget op t b r t' b' ∧ ((∃ e, r = .error e) ↔ short)
    ∧ ∀ e, r = .error e → t' = t ∧ b' = b.refuse

/-- A growth falls short: the table must grow and there is less available than it takes. -/
def GrowthShort (t : Table V) (b : Budget) : Prop :=
  t.MustGrow (t.size + 1) ∧ b.available.toNat < Ladder.fit (t.size + 1)

/-- Making room falls short as a whole, or it ends on a table that has the same elements, and if
the table had to grow, something is available then. -/
theorem spends_room (henv : env.Rations budget p) (hwf : t.chains.WellFormed)
    (hfence : t.fence = none) {rest : Debt} (hcounts : b.Counts (live rest t 0)) :
    (t.GrowthShort b ∧ ∃ e, Spends budget (rehash env (t.size + 1)) t b (.error e) t b.refuse)
      ∨ ¬ t.GrowthShort b ∧ ∃ m b', Spends budget (rehash env (t.size + 1)) t b (.ok ()) m b'
        ∧ t.Widened m ∧ (t.MustGrow (t.size + 1) ∧ b'.available ≠ 0
          ∨ ¬ t.MustGrow (t.size + 1) ∧ m = t ∧ b' = b) := by
  by_cases hgrow : t.MustGrow (t.size + 1)
  · by_cases hshort : b.available.toNat < Ladder.fit (t.size + 1)
    · exact Or.inl ⟨⟨hgrow, hshort⟩, _, spends_rehash_refused henv hfence hgrow hshort⟩
    · obtain ⟨b', hspends, havailable⟩ :=
        spends_rehash_granted henv hwf hfence hcounts hgrow (Nat.le_of_not_lt hshort)
      exact Or.inr ⟨fun h => hshort h.2, _, b', hspends,
        Or.inr ⟨_, hgrow.lt_fit, grown_counted hwf (Ladder.bounds_fit _).1⟩,
        Or.inl ⟨hgrow, havailable⟩⟩
  · exact Or.inr ⟨fun h => hgrow h.1, t, b, spends_rehash_still henv hgrow, Or.inl rfl,
      Or.inr ⟨hgrow, rfl, rfl⟩⟩

/-- Growing changes nothing about what matches. -/
theorem Widened.firstMatch?_eq_none (hwide : t.Widened m) (hwf : t.chains.WellFormed) {q : K} :
    m.firstMatch? p q = none ↔ t.firstMatch? p q = none := by
  have hmem : ∀ e, e ∈ m.chains.elements ↔ e ∈ t.chains.elements := by
    intro e
    rw [(hwide.wellFormed hwf).mem_elements_iff, hwf.mem_elements_iff, hwide.element?]
  rw [Table.firstMatch?_eq_none (hwide.wellFormed hwf), Table.firstMatch?_eq_none hwf]
  simp only [hmem]

/-- What an insertion runs short of: room for one more element, or, if it has that and needs a
node, the node. -/
def Short (t : Table V) (b : Budget) (needsNode : Prop) : Prop :=
  t.GrowthShort b ∨ ¬ t.MustGrow (t.size + 1) ∧ needsNode ∧ b.available = 0

theorem rationed_of_growthShort {op : Op W V (Except AllocError α)} {needsNode : Prop}
    {e : AllocError} (hshort : t.GrowthShort b) (h : Spends budget op t b (.error e) t b.refuse) :
    Rationed budget op t b (t.Short b needsNode) :=
  ⟨.error e, t, b.refuse, h, ⟨fun _ => Or.inl hshort, fun _ => ⟨e, rfl⟩⟩, fun _ _ => ⟨rfl, rfl⟩⟩

/-- A node is granted after a growth in any case, and otherwise as the budget has it. -/
theorem rationed_of_link (henv : env.Rations budget p) (hwf : m.chains.WellFormed)
    (hfence : m.fence = none) {op : Op W V (Except AllocError α)} {g : Cursor → α}
    {hash : UInt64} {place : Chains.Place} (hfits : m.Fits hash place) (v : V)
    (f : Option Operation) {needsNode : Prop} (hneeds : needsNode) (hnot : ¬ t.GrowthShort b)
    (hleft : t.MustGrow (t.size + 1) ∧ b'.available ≠ 0
      ∨ ¬ t.MustGrow (t.size + 1) ∧ m = t ∧ b' = b)
    (hlink : ∀ r t' b'', t'.fence = none →
      Spends budget (link env place v hash) (m.fencedBy f) b' r (t'.fencedBy f) b'' →
      Spends budget op t b (r.map g) t' b'') :
    Rationed budget op t b (t.Short b needsNode) := by
  by_cases hnone : b'.available = 0
  · have hrefused := hlink _ m _ hfence (spends_link_refused henv hwf hfits v hnone)
    obtain ⟨-, havailable⟩ | ⟨hgrow, rfl, rfl⟩ := hleft
    · exact absurd hnone havailable
    · exact ⟨_, m, b'.refuse, hrefused,
        ⟨fun _ => Or.inr ⟨hgrow, hneeds, hnone⟩, fun _ => ⟨_, rfl⟩⟩, fun _ _ => ⟨rfl, rfl⟩⟩
  · have hgranted := hlink _ (m.linked place v hash) _ hfence (spends_link henv hwf hfits v hnone)
    refine ⟨_, _, _, hgranted, ⟨?_, ?_⟩, fun e he => by cases he⟩
    · rintro ⟨e, he⟩
      cases he
    · rintro (hshort | ⟨hgrow, -, hzero⟩)
      · exact absurd hshort hnot
      · obtain ⟨hgrow', -⟩ | ⟨-, -, rfl⟩ := hleft
        · exact absurd hgrow' hgrow
        · exact absurd hzero hnone

theorem rationed_insertNew (henv : env.Rations budget p) (hwf : t.chains.WellFormed)
    (hfence : t.fence = none) {rest : Debt} (hcounts : b.Counts (live rest t 0)) (v : V) :
    Rationed budget (insertNew env v) t b
      (t.Short b (t.firstMatch? p (p.extract v) = none)) := by
  rcases spends_room henv hwf hfence hcounts with
    ⟨hshort, e, hroom⟩ | ⟨hnot, m, b', hroom, hwide, hleft⟩
  · exact rationed_of_growthShort hshort
      ((spends_prepare_refused henv .insertNew v hroom).bind .pure)
  · have hwf' := hwide.wellFormed hwf
    have hfence' := hwide.fence.trans hfence
    have hprepare := spends_prepare henv hwf' hfence' .insertNew v hroom
    have hsame := hwide.firstMatch?_eq_none (p := p) hwf (q := p.extract v)
    cases hfound : m.firstMatch? p (p.extract v) with
    | some x =>
        rw [hfound] at hprepare
        refine ⟨_, m, b', hprepare.bind ((Spends.read _).bind .pure), ⟨?_, ?_⟩,
          fun e he => by cases he⟩
        · rintro ⟨e, he⟩
          cases he
        · rintro (hshort | ⟨-, hnone, -⟩)
          · exact absurd hshort hnot
          · rw [hsame.2 hnone] at hfound
            cases hfound
    | none =>
        rw [hfound] at hprepare
        refine rationed_of_link henv hwf' hfence' (g := .linked)
          (fits_homePlace m (p.hash (p.extract v))) v (some .insertNew) (hsame.1 hfound) hnot hleft
          fun r t' b'' hleft' hlink => ?_
        exact hprepare.bind (.fenced ((Spends.read _).bind (hlink.bind .pure)) hfence' hleft')

theorem fits_firstMatch? {q : K} {x : ArenaKey} (h : t.firstMatch? p q = some x) :
    t.Fits (p.hash q) (.after x) := by
  obtain ⟨e, he, rfl⟩ := Option.map_eq_some_iff.1 h
  obtain ⟨-, xs, ys, hrow, -⟩ := List.find?_eq_some_iff_append.1 he
  exact fits_after hrow

theorem rationed_insertAny (henv : env.Rations budget p) (hwf : t.chains.WellFormed)
    (hfence : t.fence = none) {rest : Debt} (hcounts : b.Counts (live rest t 0)) (v : V) :
    Rationed budget (insertAny env v) t b (t.Short b True) := by
  rcases spends_room henv hwf hfence hcounts with
    ⟨hshort, e, hroom⟩ | ⟨hnot, m, b', hroom, hwide, hleft⟩
  · exact rationed_of_growthShort hshort
      ((spends_prepare_refused henv .insertAny v hroom).bind .pure)
  · have hwf' := hwide.wellFormed hwf
    have hfence' := hwide.fence.trans hfence
    have hprepare := spends_prepare henv hwf' hfence' .insertAny v hroom
    have hplaced : ∀ place, m.Fits (p.hash (p.extract v)) place →
        (∀ r t' b'', t'.fence = none →
          Spends budget (link env place v (p.hash (p.extract v))) (m.fencedBy (some .insertAny)) b'
            r (t'.fencedBy (some .insertAny)) b'' →
          Spends budget (insertAny env v) t b r t' b'') →
        Rationed budget (insertAny env v) t b (t.Short b True) :=
      fun place hfits hlink => rationed_of_link henv hwf' hfence' (g := fun c => c) hfits v _
        trivial hnot hleft fun r t' b'' hleft' hrun => by
          rw [show r.map (fun c => c) = r by cases r <;> rfl]
          exact hlink r t' b'' hleft' hrun
    cases hfound : m.firstMatch? p (p.extract v) with
    | some x =>
        rw [hfound] at hprepare
        exact hplaced (.after x) (fits_firstMatch? hfound) fun r t' b'' hleft' hlink =>
          hprepare.bind (.fenced ((Spends.read _).bind hlink) hfence' hleft')
    | none =>
        rw [hfound] at hprepare
        exact hplaced (m.homePlace _) (fits_homePlace m _) fun r t' b'' hleft' hlink =>
          hprepare.bind (.fenced ((Spends.read _).bind hlink) hfence' hleft')

end Table

namespace Store

variable {env past : Environment V K W} {p : Policies V K} {s : Store V W} {i : Nat} {t : Table V}

/-- In place `i` the budget refuses the command exactly if `short` holds, and then nothing has
changed but the count of refusals. -/
def Rationed (env : Environment V K W) (budget : W → Budget) (s : Store V W) (i : Nat)
    (cmd : Command V K) (short : Prop) : Prop :=
  ∃ a s', perform env (.on i cmd) s = .ok (.answered (some a)) s'
    ∧ ((∃ e, a.refusal? = some e) ↔ short)
    ∧ ((∃ e, a.refusal? = some e) →
      (∀ j, s'.table? j = s.table? j) ∧ budget s'.world = (budget s.world).refuse)

theorem rationed_on (ht : s.table? i = some t) {cmd : Command V K} {short : Prop}
    {op : Op W V (Except AllocError α)} {g : Except AllocError α → Answer V}
    (hcmd : cmd.run env = do return g (← op))
    (hg : ∀ r, (∃ e, (g r).refusal? = some e) ↔ ∃ e, r = .error e)
    (h : Table.Rationed budget op t (budget s.world) short) :
    s.Rationed env budget i cmd short := by
  obtain ⟨r, t', b', hspends, hiff, hleft⟩ := h
  obtain ⟨w', hrun, hw'⟩ := hspends s.world rfl
  have hanswer : cmd.run env ⟨t, s.world⟩ = .ok (g r) ⟨t', w'⟩ := by
    rw [hcmd]
    exact Op.run_bind_ok hrun
  refine ⟨g r, s.put i (some t') w', by rw [perform_on ht, hanswer], (hg r).trans hiff, ?_⟩
  intro hrefused
  obtain ⟨e, he⟩ := (hg r).1 hrefused
  obtain ⟨rfl, rfl⟩ := hleft e he
  rw [put_self ht]
  exact ⟨fun j => rfl, hw'⟩

/-- Tables share a budget with nothing else, whatever foreign code did in the actions before. An
insertion comes to its end, and is refused exactly if it runs short: if the table must grow and
less is available than the new buckets take, whether or not anything is inserted in the end, or if
it need not grow, needs a node and nothing is available. A refusal has changed no table, and of the
budget only the count of refusals. -/
theorem rationed_after (hpast : past.Draws budget) (henv : env.Rations budget p) {w : W}
    {limit : UInt64} (hw : budget w = .ofLimit limit) (acts : List (Action V K))
    (ht : ((ofWorld w : Store V W).after past acts).table? i = some t) (v : V) :
    ((ofWorld w).after past acts).Rationed env budget i (.insertNew v)
        (t.Short (budget ((ofWorld w : Store V W).after past acts).world)
          (∀ e ∈ t.chains.elements, Table.matchesKey p (p.extract v) e = false))
      ∧ ((ofWorld w).after past acts).Rationed env budget i (.insertAny v)
        (t.Short (budget ((ofWorld w : Store V W).after past acts).world) True) := by
  obtain ⟨hsound, haccounted⟩ := accounted_run hpast hw acts
  obtain ⟨hwf, hfence⟩ := (hsound.table i t ht).1
  have htallied : Tallied (fun w => (budget w).Counts) ((ofWorld w).after past acts) := haccounted
  have hcounts := htallied.live ht
  have hnew := Table.rationed_insertNew henv hwf hfence hcounts v
  rw [Table.firstMatch?_eq_none hwf] at hnew
  refine ⟨rationed_on ht rfl (fun r => ?_) hnew,
    rationed_on ht rfl (fun r => ?_) (Table.rationed_insertAny henv hwf hfence hcounts v)⟩
  · cases r <;> simp [Answer.refusal?]
  · cases r <;> simp [Answer.refusal?]

/-- A full table that would have to grow is refused even an element that is there already. -/
theorem rationed_after_present :
    ∃ (p : Policies Nat Nat) (env : Environment Nat Nat Budget) (s : Store Nat Budget)
      (t : Table Nat),
      p = ⟨id, Nat.toUInt64, (· == ·)⟩ ∧ env = p.environment (Budget.supply 8 8)
      ∧ s = (ofWorld (.ofLimit 202)).after env
        (.create 0 :: List.replicate 53 (.on 0 (.insertAny 3)))
      ∧ s.table? 0 = some t ∧ s.world = ⟨202, 53, 53, 0⟩
      ∧ s.Rationed env id 0 (.insertNew 3) (t.Short s.world
        (∀ e ∈ t.chains.elements, Table.matchesKey p 3 e = false))
      ∧ t.GrowthShort s.world
      ∧ (s.step env (.on 0 (.insertNew 3))).world = ⟨202, 53, 53, 1⟩ := by
  have hfull : (((ofWorld (.ofLimit 202) : Store Nat Budget).after
      ((Policies.mk id Nat.toUInt64 (· == ·)).environment (Budget.supply 8 8))
      (.create 0 :: List.replicate 53 (.on 0 (.insertAny 3)))).table? 0).map
        (fun t => (t.bucketCount, t.size)) = some (53, 53) := by decide +kernel
  have hworld : ((ofWorld (.ofLimit 202) : Store Nat Budget).after
      ((Policies.mk id Nat.toUInt64 (· == ·)).environment (Budget.supply 8 8))
      (.create 0 :: List.replicate 53 (.on 0 (.insertAny 3)))).world = ⟨202, 53, 53, 0⟩ := by
    decide +kernel
  obtain ⟨t, ht, hcounts⟩ := Option.map_eq_some_iff.1 hfull
  obtain ⟨hbuckets, hsize⟩ := Prod.mk.inj hcounts
  obtain ⟨hnew, -⟩ := rationed_after (Budget.draws_supply _ 8 8)
    (Policies.rations_budget ⟨id, Nat.toUInt64, (· == ·)⟩ 8 8) rfl _ ht 3
  refine ⟨_, _, _, t, rfl, rfl, rfl, ht, hworld, hnew, ⟨⟨?_, ?_⟩, ?_⟩, by decide +kernel⟩
  · rw [hbuckets, hsize]
    decide
  · rw [hbuckets]
    decide
  · rw [hsize, hworld]
    decide +kernel

end Store

end SeparateChaining
