import SeparateChaining.Proofs.Run

/-!
# What every table of a run looks like

The representation invariant, spelled out for a reader who knows the
arena, the buckets and the links, but not the invariant that carries the
proofs. `Table.Represented` lists what holds of a table; it follows from
`Chains.WellFormed`, which every operation keeps under every
environment, so it holds of every table of every run
(`Store.represented_after`).
-/

namespace SeparateChaining

namespace Chains

variable {V : Type} {c : Chains V} {rows : Nat → List (Element V)}

theorem Arranged.next_live (h : c.Arranged rows) {k j : ArenaKey} {n : Node V}
    (hn : c.nodes.get? k = some n) (hj : n.next = some j) : (c.nodes.get? j).isSome := by
  obtain ⟨xs, ys, hrow⟩ := List.append_of_mem (h.mem_home hn)
  have hchain := h.linked (c.buckets.home n.hash)
  rw [hrow] at hchain
  obtain ⟨m, -, hrest⟩ := segment_append.1 hchain
  obtain ⟨-, n', hn', -, hnext⟩ := segment_cons_iff.1 hrest
  obtain rfl := Option.some.inj (hn.symm.trans hn')
  rw [hj] at hnext
  cases ys with
  | nil => cases segment_nil_iff.1 hnext
  | cons y ys =>
      obtain ⟨hkey, m, hm, -⟩ := segment_cons_iff.1 hnext
      rw [Option.some.inj hkey, hm]
      rfl

theorem Arranged.head_live (h : c.Arranged rows) {i : Nat} {k : ArenaKey}
    (hk : c.buckets.head i = some k) : (c.nodes.get? k).isSome := by
  have hchain := h.linked i
  rw [hk] at hchain
  cases hrow : rows i with
  | nil =>
      rw [hrow] at hchain
      cases segment_nil_iff.1 hchain
  | cons e es =>
      rw [hrow] at hchain
      obtain ⟨hkey, m, hm, -⟩ := segment_cons_iff.1 hchain
      rw [Option.some.inj hkey, hm]
      rfl

theorem keys_chain (c : Chains V) (i : Nat) : (c.chain i).map (·.1) = keysOf (c.row i) := by
  rw [row, keysOf, List.map_map]
  rfl

/-- A live node is on the chain of its home bucket, once, and on no other. -/
theorem Arranged.count_chain (h : c.Arranged rows) {k : ArenaKey} {n : Node V}
    (hn : c.nodes.get? k = some n) (i : Nat) :
    ((c.chain i).map (·.1)).count k = if i = c.buckets.home n.hash then 1 else 0 := by
  rw [keys_chain, h.row_eq]
  have hmem := h.mem_home hn
  split
  · obtain rfl := ‹i = _›
    exact List.count_eq_one_of_mem (h.nodup _) (List.mem_map_of_mem hmem)
  · rename_i hne
    exact List.count_eq_zero.2 (h.not_mem_of_ne (Ne.symm hne) hmem)

theorem Arranged.placeOf?_live (h : c.Arranged rows) {k : ArenaKey} {n : Node V}
    (hn : c.nodes.get? k = some n) : ∃ p, c.placeOf? k = some p ∧ c.linkAt p = some k := by
  have he : c.element? k = some ⟨k, n.value, n.hash⟩ := element?_eq_some.2 ⟨n, hn, rfl⟩
  obtain ⟨i, xs, ys, -, hrow⟩ := h.exists_split he
  have hchain := h.linked i
  rw [hrow] at hchain
  obtain ⟨m, hxs, hrest⟩ := segment_append.1 hchain
  refine ⟨placeAfter i xs, h.placeOf?_eq hrow, ?_⟩
  rw [linkAt_placeAfter hxs]
  exact (segment_cons_iff.1 hrest).1

theorem Arranged.follow_chain (h : c.Arranged rows) (i : Nat) {fuel : Nat}
    (hfuel : c.nodes.slots.size ≤ fuel) :
    follow c.nodes fuel (c.buckets.head i) = c.chain i :=
  (h.linked i).follow_congr (Nat.le_trans (h.linked i).length_le hfuel)
    (Nat.le_succ_of_le (h.linked i).length_le)

end Chains

namespace Table

variable {V K W : Type} {t : Table V}

/-- What holds of every table between its operations. -/
structure Represented (t : Table V) : Prop where
  buckets_pos : 0 < t.bucketCount
  /-- A head leads to a live node. -/
  head_live : ∀ i k, t.chains.buckets.head i = some k → (t.chains.nodes.get? k).isSome
  /-- A link of a live node leads to a live node. -/
  next_live : ∀ k n j, t.chains.nodes.get? k = some n → n.next = some j →
    (t.chains.nodes.get? j).isSome
  /-- A live node is on the chain of its home bucket, once, and on no other chain. -/
  once : ∀ k n, t.chains.nodes.get? k = some n → ∀ i,
    ((t.chains.chain i).map (·.1)).count k = if i = n.hash.toNat % t.bucketCount then 1 else 0
  /-- Walking along a chain ends by itself: more fuel changes nothing. -/
  walks : ∀ i fuel, t.chains.nodes.slots.size ≤ fuel →
    Chains.follow t.chains.nodes fuel (t.chains.buckets.head i) = t.chains.chain i
  /-- The sizes of the buckets add up to the size of the table. -/
  sizes : ∃ ns, (List.range t.bucketCount).mapM t.bucketSize = .ok ns ∧ t.size = ns.sum
  /-- The buckets counted as occupied are those whose chain is not empty. -/
  occupied : t.occupied = (List.range t.bucketCount).countP fun i => !(t.chains.chain i).isEmpty
  /-- A live node's place is found on its chain. -/
  placed : ∀ k n, t.chains.nodes.get? k = some n →
    ∃ p, t.chains.placeOf? k = some p ∧ t.chains.linkAt p = some k
  /-- Every hash has a home. -/
  home : ∀ hash, ∃ i, t.home hash = .ok i ∧ i < t.bucketCount
  /-- The executable check of the structure finds nothing wrong. -/
  wellPlaced : t.chains.wellPlaced = true

theorem mapM_bucketSize (t : Table V) {is : List Nat} (h : ∀ i ∈ is, i < t.bucketCount) :
    is.mapM t.bucketSize = .ok (is.map fun i => (t.chains.chain i).length) := by
  induction is with
  | nil => rfl
  | cons i is ih =>
      obtain ⟨hi, his⟩ := List.forall_mem_cons.1 h
      rw [List.mapM_cons, bucketSize, if_pos hi, ih his]
      rfl

theorem represented (h : t.chains.WellFormed) : t.Represented where
  buckets_pos := h.buckets_pos
  head_live _ _ hk := h.head_live hk
  next_live _ _ _ hn hj := h.next_live hn hj
  once _ _ hn i := h.count_chain hn i
  walks i _ hfuel := h.follow_chain i hfuel
  sizes := by
    refine ⟨_, t.mapM_bucketSize fun i hi => List.mem_range.1 hi, ?_⟩
    have hsum := h.size_eq_sum
    simp only [Chains.length_row] at hsum
    exact hsum
  occupied := by
    have hoccupied := h.occupied_eq
    simp only [Chains.row, List.isEmpty_map] at hoccupied
    exact hoccupied
  placed _ _ hn := h.placeOf?_live hn
  home hash := ⟨_, home_eq_ok h.buckets_pos hash, h.home_lt hash⟩
  wellPlaced := h.wellPlaced

theorem size_eq_zero (h : ∀ k, t.chains.element? k = none) : t.size = 0 := by
  have hsize : t.chains.nodes.size = ([] : List ArenaKey).length :=
    Arena.size_eq_length List.nodup_nil fun k => by
      simp [Option.map_eq_none_iff.1 (h k)]
  exact hsize

/-- Clearing that is not cut short by a panic leaves nothing. -/
theorem size_clear (ht : t.Sound) {env : Environment V K W} {w : W} {u : Unit}
    {s : Running V W} (hrun : clear env ⟨t, w⟩ = .ok u s) : s.table.size = 0 := by
  have hkeeps := keeps_clear (t := t) (Contract.obeyed_wild env fun _ => True)
    fun _ _ _ _ _ _ _ => trivial
  obtain ⟨d, t', htable, -, -, -, rfl, -⟩ :=
    hkeeps.of_run_ok ht.fence ht.wellFormed trivial hrun
  rw [htable]
  refine size_eq_zero ?_
  intro k
  show (t.chains.withoutAll (Chains.keysOf t.chains.elements)).element? k = none
  rw [ht.wellFormed.element?_withoutAll]
  split
  · rfl
  · rename_i hk
    rw [ht.wellFormed.mem_keysOf_elements, not_exists] at hk
    exact Option.map_eq_none_iff.2 (Option.eq_none_iff_forall_ne_some.2 hk)

end Table

/-- Whatever the policies and the storage do, in every run from a store without tables: every
table is represented as it should be and a clear that is not cut short empties it, and no action
panics because a table's own structure is broken. -/
theorem Store.represented_after {V K W : Type} (env : Environment V K W) (w : W)
    (acts : List (Action V K)) :
    (∀ i t, ((ofWorld w : Store V W).after env acts).table? i = some t →
      t.Represented ∧ ∀ w u s, Table.clear env ⟨t, w⟩ = .ok u s → s.table.size = 0)
    ∧ ∀ a p s, perform env a ((ofWorld w).after env acts) = .error p s → p.isBreach = true →
      env.Raises p := by
  have hsound : ((ofWorld w : Store V W).after env acts).Sound := (sound_ofWorld w).after env acts
  refine ⟨fun i t ht => ?_, fun a p s hrun hbreach => ?_⟩
  · have htable := (hsound.table i t ht).1
    exact ⟨Table.represented htable.wellFormed, fun w u s hrun => Table.size_clear htable hrun⟩
  · rcases hsound.panics hrun with hmisuse | hraises
    · rw [Panic.not_isBreach_of_isMisuse hmisuse] at hbreach
      cases hbreach
    · exact hraises

end SeparateChaining
