import SeparateChaining.Environment.Policies
import SeparateChaining.Proofs.Bag
import SeparateChaining.Proofs.Run
import SeparateChaining.Proofs.Table.Rehash

/-!
# What growing does to the order

Growing does not ask foreign code anything: the cached hashes settle
where each node goes. So the order after a growth is a function of the
order before it. Each new chain is the reverse of what the old traversal
met of its elements (`Regrown.row_eq`), and elements of one hash that
stood side by side still do, in the reverse order
(`Regrown.exists_reverse`).

A growth that has moved the nodes has nothing left to do but to release
the array that they left, and by then no slot of it heads a chain, and
to count itself (`rehash_of_grown`). The release may panic; the table is
then as it is when it does not, but for the count.
-/

namespace SeparateChaining

variable {V K W : Type}

namespace Chains

variable {c c' : Chains V} {n : Nat}

theorem Regrown.row_eq (h : c.Regrown n c') (d : Nat) :
    c'.row d = (c.elements.filter fun e => e.hash.toNat % n = d).reverse := by
  rw [h.arranged.row_eq]
  simp only [pushed, Buckets.home, Buckets.size_replicate]

theorem Regrown.exists_reverse (h : c.Regrown n c') {xs ms ys : List (Element V)} {hash : UInt64}
    (hsplit : c.elements = xs ++ ms ++ ys) (hone : ∀ m ∈ ms, m.hash = hash) :
    ∃ xs' ys', c'.elements = xs' ++ ms.reverse ++ ys' := by
  have hpos : 0 < n := h.bucketCount ▸ h.arranged.buckets_pos
  have hlt : hash.toNat % n < c'.bucketCount := by
    rw [h.bucketCount]
    exact Nat.mod_lt _ hpos
  have hall : (ms.filter fun e => e.hash.toNat % n = hash.toNat % n) = ms := by
    rw [List.filter_eq_self]
    intro m hm
    rw [hone m hm]
    exact decide_eq_true rfl
  have hrow := h.row_eq (hash.toNat % n)
  rw [hsplit, List.filter_append, List.filter_append, hall, List.reverse_append,
    List.reverse_append] at hrow
  have helements := h.arranged.wellFormed.elements_split hlt
  rw [hrow] at helements
  have hassoc : ∀ p y m x q : List (Element V),
      p ++ (y ++ (m ++ x)) ++ q = (p ++ y) ++ m ++ (x ++ q) := by simp
  exact ⟨_, _, helements.trans (hassoc ..)⟩

end Chains

namespace Table

variable {env : Environment V K W} {t t' : Table V} {n : Nat}

/-- The order of the elements of `t'` is what moving those of `t` to `n` buckets makes of it. -/
structure Rearranged (t : Table V) (n : Nat) (t' : Table V) : Prop where
  bucketCount : t'.bucketCount = n
  size : t'.size = t.size
  chain : ∀ d, t'.chains.row d = (t.chains.elements.filter fun e => e.hash.toNat % n = d).reverse
  element? : ∀ k, t'.chains.element? k = t.chains.element? k
  perm : t'.chains.elements.Perm t.chains.elements
  nodup : (Chains.keysOf t'.chains.elements).Nodup
  contiguous : ∀ xs ms ys hash, t.chains.elements = xs ++ ms ++ ys → (∀ m ∈ ms, m.hash = hash) →
    ∃ xs' ys', t'.chains.elements = xs' ++ ms.reverse ++ ys'

theorem Grown.rearranged (h : t.Grown n t') (hwf : t.chains.WellFormed)
    (hmore : t.bucketCount < n) : t.Rearranged n t' where
  bucketCount := h.chains.bucketCount
  size := h.size
  chain := h.chains.row_eq
  element? := h.chains.element?
  perm := Multiset.coe_eq_coe.1 (Widened.content (Or.inr ⟨n, hmore, h⟩) hwf)
  nodup := h.chains.arranged.wellFormed.nodup_elements
  contiguous _ _ _ _ := h.chains.exists_reverse

/-- What the end of a growth makes of the table: nothing, or it counts the growth. -/
theorem eq_of_leaves_finishGrowth {u : Table V} {current : Nat} {old : Buckets} {w : W}
    (h : Op.Leaves t' (finishGrowth env current n old ⟨u, w⟩)) : t' = u ∨ t' = u.counted := by
  cases hrelease : env.releaseBuckets old w with
  | ok r w' =>
      rw [finishGrowth_of_ok hrelease] at h
      exact Or.inr (Eq.symm h)
  | error p w' =>
      rw [finishGrowth_of_error hrelease] at h
      exact Or.inl (Eq.symm h)

/-- A rehash that grows the table moves all its nodes at once to the buckets that fit, and then
only has the old array to release, which heads no chain any more, and the growth to count. -/
theorem rehash_of_grown (ht : t.Sound) {hint : Nat} {w : W}
    (hleaves : Op.Leaves t' (rehash env hint ⟨t, w⟩)) (hgrew : t.bucketCount < t'.bucketCount) :
    t.bucketCount < Ladder.fit hint ∧ t.Grown (Ladder.fit hint) t'
      ∧ ∃ old u w₁, t.moveTo (.replicate (Ladder.fit hint)) = .ok (old, u) ∧ old.isClear = true
        ∧ old.size = t.bucketCount
        ∧ rehash env hint ⟨t, w⟩
          = finishGrowth env t.bucketCount (Ladder.fit hint) old ⟨u, w₁⟩
        ∧ (t' = u ∨ t' = u.counted) := by
  have hchanged : ¬Op.Leaves t (rehash env hint ⟨t, w⟩) := by
    intro hold
    rw [hold.unique hleaves] at hgrew
    exact Nat.lt_irrefl _ hgrew
  by_cases hfits : hint ≤ t.bucketCount ∨ Ladder.fit hint ≤ t.bucketCount
  · obtain ⟨w', hrun⟩ := rehash_of_fits env hfits w
    rw [hrun] at hchanged
    exact absurd rfl hchanged
  · have hdue := mustGrow_iff.2 hfits
    rcases hgrant : env.allocateBuckets (Ladder.fit hint) (env.fitted hint w) with
      ⟨e | b, w₁⟩ | ⟨p, w₁⟩
    · rw [rehash_of_refused ht.fence hdue hgrant] at hchanged
      exact absurd rfl hchanged
    · obtain ⟨old, hmove, hclear, hsize, hrun⟩ :=
        rehash_of_granted ht.wellFormed ht.fence hdue hgrant
      rw [hrun] at hleaves
      have hpos := (Ladder.bounds_fit hint).1
      rcases eq_of_leaves_finishGrowth hleaves with rfl | rfl
      · exact ⟨hdue.lt_fit, grown_moved ht.wellFormed hpos,
          old, _, w₁, hmove, hclear, hsize, hrun, Or.inl rfl⟩
      · exact ⟨hdue.lt_fit, grown_counted ht.wellFormed hpos,
          old, _, w₁, hmove, hclear, hsize, hrun, Or.inr rfl⟩
    · rw [rehash_of_panic ht.fence hdue hgrant] at hchanged
      exact absurd rfl hchanged

end Table

namespace Store

/-- What growing does to any table that a run leaves, whatever foreign code did and does, and also
when the release of the old array panics. The nodes are moved to the buckets that fit the hint; each
new chain holds, in the reverse of the old traversal order, the elements of its bucket, so that the
same elements live under the same keys, each once, and those of one hash that stood side by side
still do. When the old array is released no slot of it heads a chain, and once it is the growth is
counted. -/
theorem rearranged_after (env : Environment V K W) (w₀ : W) (acts : List (Action V K)) {i : Nat}
    {t : Table V} (ht : ((ofWorld w₀ : Store V W).after env acts).table? i = some t) {hint : Nat}
    {w : W} {t' : Table V} (hleaves : Op.Leaves t' (Table.rehash env hint ⟨t, w⟩))
    (hgrew : t.bucketCount < t'.bucketCount) :
    t.Rearranged (Ladder.fit hint) t'
      ∧ ∃ old u w₁, t.moveTo (.replicate (Ladder.fit hint)) = .ok (old, u) ∧ old.isClear = true
        ∧ old.size = t.bucketCount
        ∧ Table.rehash env hint ⟨t, w⟩
          = Table.finishGrowth env t.bucketCount (Ladder.fit hint) old ⟨u, w₁⟩
        ∧ (t' = u ∨ t' = u.counted) := by
  have hsound := ((sound_ofWorld w₀).after env acts).table i t ht
  obtain ⟨hmore, hgrown, hrest⟩ := Table.rehash_of_grown hsound.1 hleaves hgrew
  exact ⟨hgrown.rearranged hsound.1.wellFormed hmore, hrest⟩

/-- The first bucket of two holds the same elements as before, in the reverse order, and the element
that the old array had put before them has gone to the other. -/
theorem rearranged_after_collision :
    ∃ (env : Environment Nat Nat Unit) (t t' : Table Nat),
      env = (Policies.mk id (fun k => if k < 10 then 5 else 58) (· == ·)).environment
        (.unlimited 4096 8 8)
      ∧ ((ofWorld ()).after env [.create 0, .on 0 (.insertAny 1), .on 0 (.insertAny 2),
        .on 0 (.insertAny 10)]).table? 0 = some t
      ∧ Op.Leaves t' (Table.rehash env 60 ⟨t, ()⟩) ∧ t.Rearranged 97 t'
      ∧ t.values = [10, 2, 1] ∧ t'.values = [1, 2, 10] := by
  generalize henv : (Policies.mk id (fun k => if k < 10 then 5 else 58) (· == ·)).environment
    (.unlimited 4096 8 8 : Supply Unit) = env
  have hbefore : (((ofWorld ()).after env [.create 0, .on 0 (.insertAny 1), .on 0 (.insertAny 2),
      .on 0 (.insertAny 10)]).table? 0).map (fun t => (t.values, t.bucketCount,
        match Table.rehash env 60 ⟨t, ()⟩ with
        | .ok _ s => some (s.table.values, s.table.bucketCount)
        | .error _ _ => none)) = some ([10, 2, 1], 53, some ([1, 2, 10], 97)) := by
    subst henv
    decide +kernel
  obtain ⟨t, ht, hcomputed⟩ := Option.map_eq_some_iff.1 hbefore
  obtain ⟨hvalues, hrest⟩ := Prod.mk.inj hcomputed
  obtain ⟨hcount, hgrown⟩ := Prod.mk.inj hrest
  cases hrun : Table.rehash env 60 ⟨t, ()⟩ with
  | error p s =>
      simp only [hrun] at hgrown
      cases hgrown
  | ok a s =>
      simp only [hrun] at hgrown
      obtain ⟨hvalues', hcount'⟩ := Prod.mk.inj (Option.some.inj hgrown)
      have hleaves : Op.Leaves s.table (Table.rehash env 60 ⟨t, ()⟩) := by
        rw [hrun]
        rfl
      obtain ⟨hrearranged, -⟩ := rearranged_after env () _ ht hleaves (by omega)
      rw [show Ladder.fit 60 = 97 by decide +kernel] at hrearranged
      exact ⟨env, t, s.table, rfl, ht, hrun ▸ hleaves, hrearranged, hvalues, hvalues'⟩

end Store

end SeparateChaining
