import SeparateChaining.Proofs.Record.Hearing

/-!
# What looking up asks

A key that is sought is hashed once. After that it is compared with the
elements of its home chain that cache its hash, in the order of the
chain, up to the first comparison that comes out true. Where the whole
run is wanted, the elements from that one on are compared again, up to
the first that caches another hash or compares unequal. `Through` says
how far a round of comparisons goes, whatever the policies answer, and
`Seeks`, `SeeksRun` and `Offers` put the rounds together.

Of the check nothing of that sort is said here. It may ask about every
element, and what it asks sees the table with the fence up like all else.
-/

namespace SeparateChaining

variable {V K W α : Type}

/-! ## Comparisons -/

/-- A comparison of a stored key with a key that is sought: the stored key is taken out of its
value, unless that panics, and compared. -/
structure Comparison (V K : Type) where
  element : Element V
  answer : Except Panic (K × Except Panic Bool)

namespace Comparison

/-- What a comparison asks. -/
def asked (q : K) (c : Comparison V K) : List (Consultation V K) :=
  match c.answer with
  | .error p => [.extract c.element.value (.error p)]
  | .ok (k, r) => [.extract c.element.value (.ok k), .keyEq k q r]

/-- What a comparison comes to. -/
def result (c : Comparison V K) : Except Panic Bool := c.answer.bind (·.2)

end Comparison

/-- A round of comparisons with the elements `es` in turn. It goes on for as long as they come to
`b`, so the first that does not is its last. -/
structure Through (b : Bool) (es : List (Element V)) (cs : List (Comparison V K)) : Prop where
  inOrder : cs.map (·.element) <+: es
  goesOn : ∀ c ∈ cs.dropLast, c.result = .ok b
  stops : cs.map (·.element) = es ∨ ∃ c ∈ cs.getLast?, c.result ≠ .ok b

namespace Through

variable {b : Bool} {es : List (Element V)} {e : Element V} {c : Comparison V K}
  {cs : List (Comparison V K)}

theorem nil : Through b [] ([] : List (Comparison V K)) :=
  ⟨List.prefix_refl _, fun _ hc => (List.not_mem_nil hc).elim, Or.inl rfl⟩

theorem last (he : c.element = e) (hc : c.result ≠ .ok b) : Through b (e :: es) [c] where
  inOrder := by
    rw [List.map_singleton, he]
    exact List.prefix_append [e] es
  goesOn _ hc := (List.not_mem_nil hc).elim
  stops := Or.inr ⟨c, rfl, hc⟩

theorem cons (he : c.element = e) (hc : c.result = .ok b) (h : Through b es cs) :
    Through b (e :: es) (c :: cs) where
  inOrder := by
    rw [List.map_cons, he]
    exact (List.prefix_cons_inj e).2 h.inOrder
  goesOn x hx := by
    cases cs with
    | nil => cases hx
    | cons c' cs =>
        rcases List.mem_cons.1 hx with rfl | hx
        · exact hc
        · exact h.goesOn x hx
  stops := by
    rcases h.stops with hall | ⟨x, hx, hne⟩
    · left
      rw [List.map_cons, he, hall]
    · right
      refine ⟨x, ?_, hne⟩
      cases cs with
      | nil => cases hx
      | cons c' cs => rwa [List.getLast?_cons_cons]

end Through

/-- What seeking comes to by a round of comparisons: its last decides. -/
def found (cs : List (Comparison V K)) : Except Panic (Option ArenaKey) :=
  match cs.getLast? with
  | none => .ok none
  | some c => c.result.map fun same => if same then some c.element.key else none

theorem found_singleton (c : Comparison V K) :
    found [c] = c.result.map fun same => if same then some c.element.key else none := rfl

theorem found_concat (cs : List (Comparison V K)) (c : Comparison V K) :
    found (cs ++ [c]) = c.result.map fun same => if same then some c.element.key else none := by
  rw [found, List.getLast?_concat]

theorem found_cons {c : Comparison V K} (hc : c.result = .ok false) (cs : List (Comparison V K)) :
    found (c :: cs) = found cs := by
  cases cs with
  | nil =>
      rw [found_singleton, hc]
      rfl
  | cons c' cs => rw [found, List.getLast?_cons_cons, found]

namespace Table

variable {env : Environment V K W} {t : Table V}

/-- The elements that a key of a hash is compared with at most: those of its home chain that cache
the hash. -/
def candidates (t : Table V) (hash : UInt64) : List (Element V) :=
  (t.homeRow hash).filter (·.hash = hash)

/-- The elements that a run from `k` on has at most: those of its home chain from `k` on, as long
as they cache the hash. -/
def stretch (t : Table V) (hash : UInt64) (k : ArenaKey) : List (Element V) :=
  ((t.homeRow hash).dropWhile (·.key ≠ k)).takeWhile (·.hash = hash)

/-- What is asked to find the first match of `q`. -/
inductive Seeks (t : Table V) (q : K) : List (Consultation V K) → Prop
  | unhashed {p : Panic} : Seeks t q [.hash q (.error p)]
  | compared {hash : UInt64} {cs : List (Comparison V K)}
      (through : Through false (t.candidates hash) cs) :
      Seeks t q (.hash q (.ok hash) :: cs.flatMap (·.asked q))

/-- What is asked to find the run of `q`. After a match a second round starts, at the match. -/
inductive SeeksRun (t : Table V) (q : K) : List (Consultation V K) → Prop
  | unhashed {p : Panic} : SeeksRun t q [.hash q (.error p)]
  | unmatched {hash : UInt64} {cs : List (Comparison V K)}
      (through : Through false (t.candidates hash) cs) (none : ∀ c ∈ cs, c.result ≠ .ok true) :
      SeeksRun t q (.hash q (.ok hash) :: cs.flatMap (·.asked q))
  | matched {hash : UInt64} {cs again : List (Comparison V K)} {c : Comparison V K}
      (through : Through false (t.candidates hash) (cs ++ [c])) (last : c.result = .ok true)
      (along : Through true (t.stretch hash c.element.key) again) :
      SeeksRun t q (.hash q (.ok hash) :: ((cs ++ [c]) ++ again).flatMap (·.asked q))

theorem hears_nodeMatches (hash : UInt64) (q : K) {cell : Cell V} (hhash : cell.2.hash = hash) :
    Hears t t (nodeMatches env.heard hash q cell.2) (nodeMatches env hash q cell.2) fun r asked =>
      ∃ c : Comparison V K, c.element = .ofCell cell ∧ asked = c.asked q ∧ r = c.result := by
  unfold nodeMatches
  rw [if_pos hhash, if_pos hhash]
  refine (Hears.extractOp _).bind ?_ ?_
  · rintro k _ rfl
    refine (Hears.keyEqOp k q).mono ?_
    rintro r _ rfl
    exact ⟨⟨.ofCell cell, .ok (k, r)⟩, rfl, rfl, rfl⟩
  · rintro p _ rfl
    exact ⟨⟨.ofCell cell, .error p⟩, rfl, rfl, rfl⟩

theorem nodeMatches_ne {hash : UInt64} {q : K} {n : Node V} (hhash : n.hash ≠ hash) :
    (nodeMatches env hash q n : Op W V Bool) = pure false := by
  unfold nodeMatches
  rw [if_neg hhash]

/-- A first round of comparisons, by induction on the nodes met. -/
theorem hears_seek (hash : UInt64) (q : K) (cells : List (Cell V)) :
    Hears t t (forIn cells none (seekAt env.heard hash q)) (forIn cells none (seekAt env hash q))
      fun r asked => ∃ cs, Through false ((cells.map .ofCell).filter (·.hash = hash)) cs
        ∧ asked = cs.flatMap (·.asked q) ∧ r = found cs := by
  induction cells with
  | nil => exact Hears.pure ⟨[], .nil, rfl, rfl⟩
  | cons cell cells ih =>
      rw [List.forIn_cons, List.forIn_cons]
      unfold seekAt
      rw [bind_assoc, bind_assoc]
      by_cases hhash : cell.2.hash = hash
      · have hes : ((cell :: cells).map .ofCell).filter (·.hash = hash)
            = .ofCell cell :: (cells.map Element.ofCell).filter (·.hash = hash) := by simp [hhash]
        rw [hes]
        refine (hears_nodeMatches hash q hhash).bind ?_ ?_
        · rintro b _ ⟨c, he, rfl, hc⟩
          cases b with
          | true =>
              refine Hears.pure ⟨[c], .last he (by simp [← hc]), by simp, ?_⟩
              rw [found_singleton, ← hc, he]
              rfl
          | false =>
              refine ih.mono ?_
              rintro r _ ⟨cs, hcs, rfl, rfl⟩
              exact ⟨c :: cs, .cons he hc.symm hcs, rfl, (found_cons hc.symm cs).symm⟩
        · rintro p _ ⟨c, he, rfl, hc⟩
          refine ⟨[c], .last he (by simp [← hc]), by simp, ?_⟩
          rw [found_singleton, ← hc]
          rfl
      · have hes : ((cell :: cells).map .ofCell).filter (·.hash = hash)
            = (cells.map Element.ofCell).filter (·.hash = hash) := by simp [hhash]
        rw [hes, nodeMatches_ne hhash, nodeMatches_ne hhash]
        exact ih

theorem hears_search (hwf : t.chains.WellFormed) (q : K) :
    Hears t t (search env.heard q) (search env q) fun r asked =>
      (∃ p, asked = [.hash q (.error p)] ∧ r = .error p)
      ∨ ∃ hash cs, Through false (t.candidates hash) cs
        ∧ asked = .hash q (.ok hash) :: cs.flatMap (·.asked q)
        ∧ r = (found cs).map fun k => (hash, k) := by
  unfold search
  refine (Hears.hashOp q).bind ?_ ?_
  · rintro hash _ rfl
    refine Hears.bindQuery (home_eq_ok hwf.buckets_pos hash) (Hears.bindRead ?_)
    rw [Chains.forFrom_eq_forIn, Chains.forFrom_eq_forIn]
    refine (hears_seek hash q _).bind ?_ ?_
    · rintro k _ ⟨cs, hcs, rfl, hk⟩
      exact Hears.pure (Or.inr ⟨hash, cs, hcs, by simp, by rw [← hk]; rfl⟩)
    · rintro p _ ⟨cs, hcs, rfl, hp⟩
      exact Or.inr ⟨hash, cs, hcs, rfl, by rw [← hp]; rfl⟩
  · rintro p _ rfl
    exact Or.inl ⟨p, rfl, rfl⟩

/-- A second round of comparisons, by induction on the nodes met. -/
theorem hears_extend (hash : UInt64) (q : K) (cells : List (Cell V)) (r : Run) :
    Hears t t (forIn cells r (extendRun env.heard hash q)) (forIn cells r (extendRun env hash q))
      fun _ asked => ∃ cs, Through true ((cells.map .ofCell).takeWhile (·.hash = hash)) cs
        ∧ asked = cs.flatMap (·.asked q) := by
  induction cells generalizing r with
  | nil => exact Hears.pure ⟨[], .nil, rfl⟩
  | cons cell cells ih =>
      rw [List.forIn_cons, List.forIn_cons]
      unfold extendRun
      rw [bind_assoc, bind_assoc]
      by_cases hhash : cell.2.hash = hash
      · have hes : ((cell :: cells).map .ofCell).takeWhile (·.hash = hash)
            = .ofCell cell :: (cells.map Element.ofCell).takeWhile (·.hash = hash) := by
          simp [hhash]
        rw [hes]
        refine (hears_nodeMatches hash q hhash).bind ?_ ?_
        · rintro b _ ⟨c, he, rfl, hc⟩
          cases b with
          | true =>
              refine (ih _).mono ?_
              rintro r' _ ⟨cs, hcs, rfl⟩
              exact ⟨c :: cs, .cons he hc.symm hcs, rfl⟩
          | false => exact Hears.pure ⟨[c], .last he (by simp [← hc]), by simp⟩
        · rintro p _ ⟨c, he, rfl, hc⟩
          exact ⟨[c], .last he (by simp [← hc]), by simp⟩
      · have hes : ((cell :: cells).map .ofCell).takeWhile (·.hash = hash)
            = ([] : List (Element V)) := by simp [hhash]
        rw [hes, nodeMatches_ne hhash, nodeMatches_ne hhash]
        exact Hears.pure ⟨[], .nil, rfl⟩

end Table

/-- A round that found nothing had no comparison come out true. -/
theorem Through.unmatched {es : List (Element V)} {cs : List (Comparison V K)}
    (h : Through false es cs) (hfound : ∀ k, found cs ≠ .ok (some k)) :
    ∀ c ∈ cs, c.result ≠ .ok true := by
  rcases List.eq_nil_or_concat cs with rfl | ⟨cs, last, rfl⟩
  · exact fun c hc => (List.not_mem_nil hc).elim
  · intro c hc htrue
    rcases List.mem_append.1 (List.concat_eq_append ▸ hc) with hc | hc
    · have hfalse := h.goesOn c (by simpa using hc)
      cases htrue.symm.trans hfalse
    · obtain rfl := List.mem_singleton.1 hc
      refine hfound c.element.key ?_
      rw [List.concat_eq_append, found_concat, htrue]
      rfl

/-- A round that found an element had its last comparison come out true. -/
theorem exists_last_of_found {cs : List (Comparison V K)} {k : ArenaKey}
    (h : found cs = .ok (some k)) :
    ∃ cs' c, cs = cs' ++ [c] ∧ c.result = .ok true ∧ c.element.key = k := by
  rcases List.eq_nil_or_concat cs with rfl | ⟨cs, c, rfl⟩
  · cases h
  · rw [List.concat_eq_append, found_concat] at h
    refine ⟨cs, c, List.concat_eq_append, ?_⟩
    cases hc : c.result with
    | error p =>
        rw [hc] at h
        cases h
    | ok b =>
        rw [hc] at h
        cases b with
        | false => cases h
        | true => exact ⟨rfl, Option.some.inj (Except.ok.inj h)⟩

namespace Table

variable {env : Environment V K W} {t : Table V}

/-- The chain from a node of it on, as it is walked. -/
theorem cellsFrom_candidate (hwf : t.chains.WellFormed) {hash : UInt64} {e : Element V}
    (he : e ∈ t.candidates hash) :
    (t.chains.cellsFrom (some e.key)).map .ofCell
      = (t.homeRow hash).dropWhile (·.key ≠ e.key) := by
  obtain ⟨xs, ys, hrow⟩ := List.append_of_mem (List.mem_of_mem_filter he)
  have hlinked := hwf.linked (t.chains.buckets.home hash)
  rw [show t.chains.row _ = _ from hrow] at hlinked
  obtain ⟨m, -, hrest⟩ := Chains.segment_append.1 hlinked
  obtain rfl := (Chains.segment_cons_iff.1 hrest).1
  have hnodup := hwf.nodup (t.chains.buckets.home hash)
  rw [show t.chains.row _ = _ from hrow] at hnodup
  have hxs : ∀ x ∈ xs, decide (x.key ≠ e.key) = true := by
    intro x hx
    rw [Chains.keysOf, List.map_append] at hnodup
    exact decide_eq_true fun heq => List.disjoint_of_nodup_append hnodup
      (List.mem_map_of_mem hx) (heq ▸ List.mem_map_of_mem List.mem_cons_self)
  rw [hrest.cellsFrom_eq, hrow, List.dropWhile_append_of_pos hxs, List.dropWhile_cons_of_neg]
  simp

theorem hears_runOf (hwf : t.chains.WellFormed) (q : K) :
    Hears t t (runOf env.heard q) (runOf env q) fun _ asked => SeeksRun t q asked := by
  unfold runOf
  refine (hears_search hwf q).bind ?_ ?_
  · rintro ⟨hash, k⟩ asked (⟨p, -, hp⟩ | ⟨hash', cs, hcs, rfl, hr⟩)
    · cases hp
    · cases hfound : found cs with
      | error p =>
          rw [hfound] at hr
          cases hr
      | ok k' =>
          rw [hfound] at hr
          cases hr
          cases k with
          | none =>
              refine Hears.pure ?_
              rw [List.append_nil]
              exact .unmatched hcs (hcs.unmatched fun k hk => by cases hfound.symm.trans hk)
          | some k =>
              obtain ⟨cs, c, rfl, hlast, rfl⟩ := exists_last_of_found hfound
              have hc : c.element ∈ t.candidates hash :=
                hcs.inOrder.subset (List.mem_map_of_mem (List.mem_append_right _ (by simp)))
              have hmatched : ∀ again : List (Comparison V K),
                  Through true (((t.chains.cellsFrom (some c.element.key)).map .ofCell).takeWhile
                    (·.hash = hash)) again →
                  SeeksRun t q (.hash q (.ok hash) :: (cs ++ [c]).flatMap (·.asked q)
                    ++ again.flatMap (·.asked q)) := by
                intro again hagain
                rw [cellsFrom_candidate hwf hc] at hagain
                rw [List.cons_append, ← List.flatMap_append]
                exact .matched hcs hlast hagain
              refine Hears.bindRead ?_
              rw [Chains.forFrom_eq_forIn, Chains.forFrom_eq_forIn]
              refine (hears_extend hash q _ _).bind ?_ ?_
              · rintro r _ ⟨again, hagain, rfl⟩
                refine Hears.pure ?_
                rw [List.append_nil]
                exact hmatched again hagain
              · rintro p _ ⟨again, hagain, rfl⟩
                exact hmatched again hagain
  · rintro p asked (⟨p, rfl, -⟩ | ⟨hash, cs, hcs, rfl, hp⟩)
    · exact .unhashed
    · refine .unmatched hcs (hcs.unmatched fun k hk => ?_)
      rw [hk] at hp
      cases hp

theorem hears_search_seeks (hwf : t.chains.WellFormed) (q : K) :
    Hears t t (search env.heard q) (search env q) fun _ asked => Seeks t q asked := by
  refine (hears_search hwf q).mono ?_
  rintro r asked (⟨p, rfl, -⟩ | ⟨hash, cs, hcs, rfl, -⟩)
  · exact .unhashed
  · exact .compared hcs

/-! ## The check -/

theorem hears_hashesCurrent (cells : List (Cell V)) :
    Hears t t (hashesCurrent env.heard cells) (hashesCurrent env cells) fun _ _ => True := by
  induction cells with
  | nil => exact Hears.pure trivial
  | cons cell cells ih =>
      refine (Hears.extractOp _).bind ?_ fun _ _ _ => trivial
      intro k asked _
      refine (Hears.hashOp k).bind ?_ fun _ _ _ => trivial
      intro hash asked' _
      split
      · exact ih
      · exact Hears.pure trivial

theorem hears_equalComeFirst (k : K) (left : Bool) (vs : List V) :
    Hears t t (equalComeFirst env.heard k left vs) (equalComeFirst env k left vs)
      fun _ _ => True := by
  induction vs generalizing left with
  | nil => exact Hears.pure trivial
  | cons v vs ih =>
      refine (Hears.extractOp v).bind ?_ fun _ _ _ => trivial
      intro k' asked _
      refine (Hears.keyEqOp k k').bind ?_ fun _ _ _ => trivial
      intro same asked' _
      split
      · exact Hears.pure trivial
      · exact ih _

theorem hears_runsContiguous (vs : List V) :
    Hears t t (runsContiguous env.heard vs) (runsContiguous env vs) fun _ _ => True := by
  induction vs with
  | nil => exact Hears.pure trivial
  | cons v vs ih =>
      refine (Hears.extractOp v).bind ?_ fun _ _ _ => trivial
      intro k asked _
      refine (hears_equalComeFirst k false vs).bind ?_ fun _ _ h => h
      intro first asked' _
      split
      · exact ih
      · exact Hears.pure trivial

theorem hears_allChains {p' : List (Cell V) → Op (W × List (Heard V K)) V Bool}
    {p : List (Cell V) → Op W V Bool} (hp : ∀ cells, Hears t t (p' cells) (p cells) fun _ _ => True)
    (is : List Nat) : Hears t t (allChains p' is) (allChains p is) fun _ _ => True := by
  induction is with
  | nil => exact Hears.pure trivial
  | cons i is ih =>
      refine Hears.bindRead ((hp _).bind ?_ fun _ _ h => h)
      intro ok asked _
      split
      · exact ih
      · exact Hears.pure trivial

/-! ## Operations -/

/-- What is asked for a value that is offered: its key, and then what seeking that asks. -/
inductive Offers (t : Table V) (value : V) : List (Consultation V K) → Prop
  | unextracted {p : Panic} : Offers t value [.extract value (.error p)]
  | sought {k : K} {asked : List (Consultation V K)} (seeks : Seeks t k asked) :
      Offers t value (.extract value (.ok k) :: asked)

theorem Seeks.of_fencedBy {f : Option Operation} {q : K} {asked : List (Consultation V K)}
    (h : Seeks (t.fencedBy f) q asked) : Seeks t q asked := by
  cases h with
  | unhashed => exact .unhashed
  | compared through => exact .compared through

theorem SeeksRun.of_fencedBy {f : Option Operation} {q : K} {asked : List (Consultation V K)}
    (h : SeeksRun (t.fencedBy f) q asked) : SeeksRun t q asked := by
  cases h with
  | unhashed => exact .unhashed
  | unmatched through none => exact .unmatched through none
  | matched through last along => exact .matched through last along

theorem hears_find (ht : t.Sound) (q : K) :
    Hears (t.fencedBy (some .find)) t (find env.heard q) (find env q)
      fun _ asked => Seeks t q asked := by
  refine Hears.fenced ht.fence
    ((hears_search_seeks (t := t.fencedBy (some .find)) ht.wellFormed q).bind ?_ ?_)
  · intro r asked h
    refine Hears.read ?_
    rw [List.append_nil]
    exact h.of_fencedBy
  · exact fun p asked h => h.of_fencedBy

theorem hears_fenced_runOf (ht : t.Sound) (op : Operation) (q : K) :
    Hears (t.fencedBy (some op)) t (.fenced op (runOf env.heard q)) (.fenced op (runOf env q))
      fun _ asked => SeeksRun t q asked :=
  Hears.fenced ht.fence ((hears_runOf (t := t.fencedBy (some op)) ht.wellFormed q).mono
    fun _ _ h => h.of_fencedBy)

/-- An operation that looks up a run and reads its answer off it. -/
theorem hears_fenced_run (ht : t.Sound) (op : Operation) (q : K)
    {g' : Option Run → Op (W × List (Heard V K)) V α} {g : Option Run → Op W V α}
    (hg : ∀ r, g' r = (g r).beside) (hleaves : ∀ r s, Op.Leaves s.table (g r s)) :
    Hears (t.fencedBy (some op)) t (.fenced op (runOf env.heard q >>= g'))
      (.fenced op (runOf env q >>= g)) fun _ asked => SeeksRun t q asked := by
  refine Hears.fenced ht.fence
    ((hears_runOf (t := t.fencedBy (some op)) ht.wellFormed q).bind ?_ ?_)
  · intro r asked h
    refine Hears.silent (hg r) (fun w => hleaves r _) fun w => ?_
    rw [List.append_nil]
    exact h.of_fencedBy
  · exact fun p asked h => h.of_fencedBy

theorem hears_count (ht : t.Sound) (q : K) :
    Hears (t.fencedBy (some .count)) t (count env.heard q) (count env q)
      fun _ asked => SeeksRun t q asked :=
  hears_fenced_run ht .count q (fun _ => rfl) fun _ _ => rfl

theorem hears_range (ht : t.Sound) (q : K) :
    Hears (t.fencedBy (some .range)) t (range env.heard q) (range env q)
      fun _ asked => SeeksRun t q asked :=
  hears_fenced_run ht .range q (fun r => by cases r <;> rfl) fun r _ => by cases r <;> rfl

theorem hears_iteratorOf (ht : t.Sound) (q : K) :
    Hears (t.fencedBy (some .iteratorOf)) t (iteratorOf env.heard q) (iteratorOf env q)
      fun _ asked => SeeksRun t q asked :=
  hears_fenced_run ht .iteratorOf q (fun r => by cases r <;> rfl) fun r _ => by cases r <;> rfl

theorem hears_homeBucket (ht : t.Sound) (q : K) :
    Hears (t.fencedBy (some .homeBucket)) t (homeBucket env.heard q) (homeBucket env q)
      fun _ asked => ∃ r, asked = [.hash q r] := by
  refine Hears.fenced ht.fence
    ((Hears.hashOp q).bind ?_ ?_)
  · rintro hash _ rfl
    exact Hears.silent (Op.query_eq_beside _) (fun w => Op.leaves_query _ _) fun _ => ⟨_, rfl⟩
  · rintro p _ rfl
    exact ⟨_, rfl⟩

theorem hears_check (ht : t.Sound) :
    Hears (t.fencedBy (some .check)) t (check env.heard) (check env) fun _ _ => True := by
  refine Hears.fenced ht.fence (Hears.bindRead (Hears.bindRead ?_))
  split
  · exact Hears.pure trivial
  · refine (hears_allChains (hears_hashesCurrent ·) _).bind ?_ fun _ _ h => h
    intro ok asked _
    split
    · exact Hears.pure trivial
    · exact hears_allChains (fun cells => hears_runsContiguous _) _

/-- Seeking the key of a value that an insertion holds. -/
def seekHeld (env : Environment V K W) (op : Operation) (value : V) :
    Op W V (UInt64 × Option ArenaKey) :=
  env.holding value (.fenced op do search env (← env.extractOp value))

theorem hears_seekHeld (env : Environment V K W) (ht : t.Sound) (op : Operation) (value : V) :
    Hears (t.fencedBy (some op)) t (seekHeld env.heard op value) (seekHeld env op value)
      fun _ asked => Offers t value asked := by
  refine Hears.holding value (Hears.fenced ht.fence ((Hears.extractOp value).bind ?_ ?_))
  · rintro k _ rfl
    exact (hears_search_seeks (t := t.fencedBy (some op)) ht.wellFormed k).mono
      fun _ _ h => Offers.sought h.of_fencedBy
  · rintro p _ rfl
    exact .unextracted

end Table

end SeparateChaining
