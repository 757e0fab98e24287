import SeparateChaining.Proofs.Chains.Linking

/-!
# Moving and revaluing

The two changes that touch all chains at once.

Moving to another bucket array takes the old chains apart one by one,
while the nodes taken off stand on the heads of the new ones. The
invariant of the loop relates three things: the rest of the chain being
taken apart, the old chains to come, and the new chains, which never
share a node. At the end row `j` of the new array holds the elements of
home `j` in the reverse of the old traversal order
(`Arranged.moveTo`), and the old array is empty.

Revaluing replaces values and leaves keys, hashes and links, so it maps
each row (`Arranged.revalue`).
-/

namespace SeparateChaining.Chains

variable {V : Type} {c : Chains V} {rows : Nat → List (Element V)}

/-! ## Moving -/

/-- The elements of home `j` among those of `es`, the last first: what pushing `es` one by one
onto empty buckets leaves in bucket `j`. -/
def pushed (target : Buckets) (es : List (Element V)) (j : Nat) : List (Element V) :=
  (es.filter fun e => target.home e.hash = j).reverse

theorem mem_pushed {target : Buckets} {es : List (Element V)} {j : Nat} {e : Element V} :
    e ∈ pushed target es j ↔ e ∈ es ∧ target.home e.hash = j := by
  simp [pushed]

theorem pushed_append {target : Buckets} (xs ys : List (Element V)) (j : Nat) :
    pushed target (xs ++ ys) j = pushed target ys j ++ pushed target xs j := by
  rw [pushed, List.filter_append, List.reverse_append]
  rfl

theorem pushed_congr {a b : Buckets} (h : a.size = b.size) (es : List (Element V)) :
    pushed a es = pushed b es := by
  funext j
  simp only [pushed, Buckets.home_congr h]

/-- What pushing a chain leaves: its nodes on the new chains, in the reverse of their order and
before what was there, and all other nodes as they were. -/
structure Pushed (nodes : Arena (Node V)) (target : Buckets) (rows : Nat → List (Element V))
    (es : List (Element V)) (nodes' : Arena (Node V)) (target' : Buckets) : Prop where
  size : target'.size = target.size
  slots : nodes'.slots.size = nodes.slots.size
  linked : ∀ j, Segment nodes' (target'.head j) (pushed target es j ++ rows j) none
  frame : ∀ k, k ∉ keysOf es → nodes'.get? k = nodes.get? k
  follows : nodes.Follows nodes'
  content : ∀ k, (nodes'.get? k).map (fun n => (n.value, n.hash))
    = (nodes.get? k).map fun n => (n.value, n.hash)

/-- A chain is pushed without a panic, node by node. The induction is on the chain; the frame
conditions keep the rest of it and the new chains apart from the node being pushed. -/
theorem pushAll_eq {es : List (Element V)} {nodes : Arena (Node V)} {l : Link}
    (h : Segment nodes l es none) {target : Buckets} (hpos : 0 < target.size)
    {rows : Nat → List (Element V)} (hrows : ∀ j, Segment nodes (target.head j) (rows j) none)
    (hdisj : ∀ j, ∀ e ∈ es, e.key ∉ keysOf (rows j)) {fuel : Nat} (hfuel : es.length ≤ fuel) :
    ∃ nodes' target', pushAll fuel l nodes target = .ok (nodes', target')
      ∧ Pushed nodes target rows es nodes' target' := by
  induction es generalizing nodes l target rows fuel with
  | nil =>
      obtain rfl := segment_nil_iff.1 h
      exact ⟨nodes, target, by cases fuel <;> rfl, rfl, rfl, hrows, fun _ _ => rfl,
        .refl _, fun _ => rfl⟩
  | cons e es ih =>
      have hnodup := h.nodup
      obtain ⟨rfl, n, hn, hen, hrest⟩ := segment_cons_iff.1 h
      rw [keysOf, List.map_cons, List.nodup_cons] at hnodup
      have hhash : n.hash = e.hash := by rw [hen]
      cases fuel with
      | zero => simp at hfuel
      | succ fuel =>
          have hlt := Buckets.home_lt target e.hash hpos
          rw [pushAll]
          simp only [hn, hhash]
          generalize hi : target.home e.hash = i at hlt
          generalize hm : (nodes.modify e.key fun n => { n with next := target.head i }) = mid
          have hmid : ∀ k, k ≠ e.key → mid.get? k = nodes.get? k := fun k hk => by
            rw [← hm]
            exact Arena.get?_modify_ne _ hk
          have hself : mid.get? e.key = some { n with next := target.head i } := by
            rw [← hm, Arena.get?_modify_self, hn]
            rfl
          have hrows' : ∀ j, Segment mid ((target.setHead i (some e.key)).head j)
              (if j = i then e :: rows j else rows j) none := by
            intro j
            have hold : Segment mid (target.head j) (rows j) none := by
              rw [← hm]
              exact (hrows j).modify (hdisj j e (List.mem_cons_self ..)) _
            by_cases hj : j = i
            · subst hj
              rw [Buckets.head_setHead_self hlt, if_pos rfl]
              exact segment_cons_iff.2 ⟨rfl, _, hself, hen, hold⟩
            · rw [Buckets.head_setHead_ne hj, if_neg hj]
              exact hold
          have hdisj' : ∀ j, ∀ x ∈ es, x.key ∉ keysOf (if j = i then e :: rows j else rows j) := by
            intro j x hx hmem
            have hxe : x.key ≠ e.key := fun heq => hnodup.1 (heq ▸ List.mem_map_of_mem hx)
            have hxr := hdisj j x (List.mem_cons_of_mem _ hx)
            by_cases hj : j = i
            · rw [if_pos hj] at hmem
              exact (List.mem_cons.1 hmem).elim hxe hxr
            · rw [if_neg hj] at hmem
              exact hxr hmem
          have hrest' : Segment mid n.next es none := by
            rw [← hm]
            exact hrest.modify hnodup.1 _
          obtain ⟨nodes', target', hrun, hsize, hslots, hlinked, hframe, hfollows, hcontent⟩ :=
            ih hrest' (by rwa [Buckets.size_setHead]) hrows' hdisj' (Nat.le_of_succ_le_succ hfuel)
          refine ⟨nodes', target', hrun, ?_, ?_, fun j => ?_, fun k hk => ?_, ?_, fun k => ?_⟩
          · rw [hsize, Buckets.size_setHead]
          · rw [hslots, ← hm, Arena.slots_size_modify]
          · have hj := hlinked j
            have hpush : pushed target (e :: es) j ++ rows j
                = pushed (target.setHead i (some e.key)) es j
                  ++ (if j = i then e :: rows j else rows j) := by
              simp only [pushed, Buckets.home_setHead]
              by_cases hji : j = i
              · rw [if_pos hji, List.filter_cons_of_pos (by simp [hi, hji])]
                simp
              · rw [if_neg hji, List.filter_cons_of_neg (by simp [hi, Ne.symm hji])]
            rw [hpush]
            exact hj
          · simp only [keysOf, List.map_cons, List.mem_cons, not_or] at hk
            rw [hframe k hk.2, hmid k hk.1]
          · refine Arena.Follows.trans ?_ hfollows
            rw [← hm]
            exact Arena.follows_modify ..
          · rw [hcontent]
            by_cases hk : k = e.key
            · rw [hk, hself, hn]
              rfl
            · rw [hmid k hk]

/-- The state of a move when the chains of the first `i` buckets have been taken apart. -/
structure Moved (c : Chains V) (rows : Nat → List (Element V)) (target : Buckets) (i : Nat)
    (m : Move V) : Prop where
  slots : m.nodes.slots.size = c.nodes.slots.size
  source : ∀ j, m.source.head j = if j < i then none else c.buckets.head j
  source_size : m.source.size = c.bucketCount
  target_size : m.target.size = target.size
  old : ∀ j, i ≤ j → Segment m.nodes (c.buckets.head j) (rows j) none
  linked : ∀ j, Segment m.nodes (m.target.head j)
    (pushed target ((List.range i).flatMap rows) j) none
  follows : c.nodes.Follows m.nodes
  content : ∀ k, (m.nodes.get? k).map (fun n => (n.value, n.hash))
    = (c.nodes.get? k).map fun n => (n.value, n.hash)

/-- Taking one more chain apart. -/
theorem Moved.bucket (h : c.Arranged rows) {target : Buckets} (hpos : 0 < target.size) {i : Nat}
    (hi : i < c.bucketCount) {m : Move V} (hm : Moved c rows target i m) :
    ∃ m', m.bucket i = .ok m' ∧ Moved c rows target (i + 1) m' := by
  have hhead : m.source.head i = c.buckets.head i := by
    rw [hm.source, if_neg (Nat.lt_irrefl i)]
  have hfuel : (rows i).length ≤ m.nodes.slots.size + 1 := by
    rw [hm.slots]
    exact Nat.le_succ_of_le (h.linked i).length_le
  have hdisj : ∀ j, ∀ e ∈ rows i,
      e.key ∉ keysOf (pushed target ((List.range i).flatMap rows) j) := by
    intro j e he hmem
    obtain ⟨x, hx, hkey⟩ := List.mem_map.1 hmem
    obtain ⟨k, hk, hx⟩ := List.mem_flatMap.1 (mem_pushed.1 hx).1
    have hki := (h.eq_of_key hx he hkey).2
    exact absurd (List.mem_range.1 hk) (by rw [hki]; exact Nat.lt_irrefl i)
  obtain ⟨nodes', target', hrun, hsize, hslots, hlinked, hframe, hfollows, hcontent⟩ :=
    pushAll_eq (hm.old i (Nat.le_refl i)) (by rw [hm.target_size]; exact hpos) hm.linked hdisj hfuel
  refine ⟨⟨nodes', m.source.setHead i none, target'⟩, ?_, ?_⟩
  · rw [Move.bucket, Buckets.detach]
    simp only [hhead, hrun]
  · refine ⟨hslots.trans hm.slots, fun j => ?_, ?_, hsize.trans hm.target_size, fun j hj => ?_,
      fun j => ?_, hm.follows.trans hfollows, fun k => (hcontent k).trans (hm.content k)⟩
    · by_cases hj : j = i
      · subst hj
        rw [Buckets.head_setHead_self (hm.source_size ▸ hi), if_pos (Nat.lt_succ_self j)]
      · rw [Buckets.head_setHead_ne hj, hm.source]
        have : j < i ↔ j < i + 1 := by omega
        simp only [this]
    · rw [Buckets.size_setHead]
      exact hm.source_size
    · refine (hm.old j (Nat.le_of_succ_le hj)).congr fun e he => hframe _ ?_
      exact h.not_mem_of_ne (Nat.ne_of_gt hj) he
    · have hj := hlinked j
      rw [pushed_congr hm.target_size] at hj
      rw [List.range_succ, List.flatMap_append, pushed_append]
      simpa using hj

/-- The move as far as bucket `i`: the run lemma over the buckets. -/
theorem foldlM_bucket (h : c.Arranged rows) {target : Buckets} (hpos : 0 < target.size)
    (hclear : ∀ j, target.head j = none) {i : Nat} (hi : i ≤ c.bucketCount) :
    ∃ m, (List.range i).foldlM Move.bucket (Move.mk c.nodes c.buckets target) = .ok m
      ∧ Moved c rows target i m := by
  induction i with
  | zero =>
      refine ⟨_, rfl, rfl, fun j => ?_, rfl, rfl, fun j _ => h.linked j, fun j => ?_,
        .refl _, fun _ => rfl⟩
      · rw [if_neg (Nat.not_lt_zero j)]
      · show Segment c.nodes (target.head j) [] none
        exact segment_nil_iff.2 (hclear j)
  | succ i ih =>
      obtain ⟨m, hrun, hm⟩ := ih (Nat.le_of_succ_le hi)
      obtain ⟨m', hstep, hm'⟩ := hm.bucket h hpos (Nat.lt_of_succ_le hi)
      refine ⟨m', ?_, hm'⟩
      rw [List.range_succ, List.foldlM_append, hrun]
      show List.foldlM Move.bucket m [i] = _
      rw [List.foldlM_cons, hstep]
      rfl

/-- The chains `c'` are what moving the nodes of `c` to `n` buckets leaves: each chain holds the
elements at home there in the reverse of the old traversal order, and elements stay as they are
under their keys. -/
structure Regrown (c : Chains V) (n : Nat) (c' : Chains V) : Prop where
  arranged : c'.Arranged (pushed (.replicate n) c.elements)
  bucketCount : c'.bucketCount = n
  element? : ∀ k, c'.element? k = c.element? k
  follows : c.nodes.Follows c'.nodes

/-- Moving to a new array of buckets never panics, and leaves the old array empty. -/
theorem Arranged.moveTo (h : c.Arranged rows) {n : Nat} (hn : 0 < n) :
    ∃ c' old, c.moveTo (.replicate n) = .ok (c', old) ∧ c.Regrown n c'
      ∧ old.isClear = true ∧ old.size = c.bucketCount := by
  have hpos : 0 < (Buckets.replicate n).size := by rwa [Buckets.size_replicate]
  obtain ⟨m, hrun, hm⟩ :=
    foldlM_bucket h hpos (Buckets.head_replicate n) (Nat.le_refl c.bucketCount)
  have helem : ∀ k, element? ⟨m.nodes, m.target⟩ k = c.element? k := by
    intro k
    have hk :=
      congrArg (Option.map fun p : V × UInt64 => (⟨k, p.1, p.2⟩ : Element V)) (hm.content k)
    rw [Option.map_map, Option.map_map] at hk
    exact hk
  have hhome := Buckets.home_congr hm.target_size
  refine ⟨⟨m.nodes, m.target⟩, m.source, ?_, ⟨?_, ?_, helem, hm.follows⟩, ?_, hm.source_size⟩
  · rw [Chains.moveTo, hrun]
  · refine arranged_of_mem_iff ?_ (fun j => ?_) fun j e => ?_
    · show 0 < m.target.size
      rw [hm.target_size]
      exact hpos
    · rw [h.elements_eq]
      exact hm.linked j
    · rw [mem_pushed, h.mem_elements_iff, helem, ← hhome]
  · show m.target.size = n
    rw [hm.target_size, Buckets.size_replicate]
  · rw [Buckets.isClear, ← Array.all_toList, Buckets.toList_heads, List.all_map, List.all_eq_true]
    intro j hj
    rw [List.mem_range, hm.source_size] at hj
    show (m.source.head j).isNone = true
    rw [hm.source, if_pos hj]
    rfl

/-! ## Revaluing -/

/-- Replacing values, and nothing else, maps the rows. -/
theorem Arranged.revalue (h : c.Arranged rows) {nodes : Arena (Node V)} {g : ArenaKey → V → V}
    (hg : ∀ k, nodes.get? k = (c.nodes.get? k).map fun n => { n with value := g k n.value }) :
    Arranged ⟨nodes, c.buckets⟩ fun i =>
      (rows i).map fun e => { e with value := g e.key e.value } := by
  refine ⟨h.buckets_pos, fun i => ?_, fun i e he => ?_, fun k n hn => ?_⟩
  · show Segment nodes (c.buckets.head i) _ none
    have hlinked := h.linked i
    generalize c.buckets.head i = l at hlinked
    generalize rows i = es at hlinked
    generalize (none : Link) = m at hlinked
    induction hlinked with
    | nil l => exact .nil l
    | @cons k n es m found rest ih =>
        refine segment_cons_iff.2 ⟨rfl, { n with value := g k n.value }, ?_, rfl, ih⟩
        rw [hg, found]
        rfl
  · obtain ⟨x, hx, rfl⟩ := List.mem_map.1 he
    exact h.home i x hx
  · rw [hg] at hn
    obtain ⟨n', hn', -⟩ := Option.map_eq_some_iff.1 hn
    obtain ⟨i, e, he, rfl⟩ := h.complete k n' hn'
    exact ⟨i, _, List.mem_map_of_mem he, rfl⟩

end SeparateChaining.Chains
