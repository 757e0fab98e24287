import SeparateChaining.Proofs.Contract
import SeparateChaining.Table.Lookup

/-!
# What looking up finds

One law per operation of a lookup, under any contract that the
environment obeys. No lookup changes the table. What it finds is said
in terms of the answers that foreign code gave: an element `Matches` a
key if the comparison said so, and `Differs` from it if its cached hash
does or the comparison said so. Under a contract that admits every
answer this is where a found node stands and which hash it caches;
under one that fixes the answers it is what the lookup returns.
-/

namespace SeparateChaining

variable {V K W : Type}

namespace Contract

/-! ## Matches and runs -/

/-- Foreign code may have said that the key of `e` equals `q`, whose hash is `hash`. -/
def Matches (C : Contract V K W) (hash : UInt64) (q : K) (e : Element V) : Prop :=
  e.hash = hash ∧ ∃ k, C.key e.value k ∧ C.eq k q true

/-- The hash of `e` is another one, or foreign code may have said that its key does not equal
`q`. -/
def Differs (C : Contract V K W) (hash : UInt64) (q : K) (e : Element V) : Prop :=
  e.hash = hash → ∃ k, C.key e.value k ∧ C.eq k q false

/-- The first match among `es`. -/
def FirstMatch (C : Contract V K W) (hash : UInt64) (q : K) (es : List (Element V)) :
    Option ArenaKey → Prop
  | none => ∀ e ∈ es, C.Differs hash q e
  | some k => ∃ xs e ys, es = xs ++ e :: ys ∧ e.key = k ∧ C.Matches hash q e
      ∧ ∀ x ∈ xs, C.Differs hash q x

/-- Among `es`, after `xs` and before `ys`, stand the elements `ms` of the run `r`. The node at
which a run starts matched once before it was asked again, so a run may be empty. -/
structure Spans (C : Contract V K W) (hash : UInt64) (q : K) (es : List (Element V))
    (r : Table.Run) (xs ms ys : List (Element V)) : Prop where
  split : es = xs ++ (ms ++ ys)
  before : ∀ x ∈ xs, C.Differs hash q x
  within : ∀ m ∈ ms, C.Matches hash q m
  after : ∀ y ∈ ys.head?, C.Differs hash q y
  start : ∃ m ∈ (ms ++ ys).head?, m.key = r.first ∧ C.Matches hash q m
  last : r.last = (ms.getLast?.map (·.key)).getD r.first
  count : r.count = ms.length

/-- The run of `q`, if any element matches. -/
def IsRun (C : Contract V K W) (hash : UInt64) (q : K) (es : List (Element V)) :
    Option Table.Run → Prop
  | none => ∀ e ∈ es, C.Differs hash q e
  | some r => ∃ xs ms ys, C.Spans hash q es r xs ms ys

end Contract

namespace Table

variable {C : Contract V K W} {env : Environment V K W} {f : Option Operation} {t : Table V}

open Contract

/-- The elements on the chain where a hash belongs. -/
def homeRow (t : Table V) (hash : UInt64) : List (Element V) :=
  t.chains.row (t.chains.buckets.home hash)

/-! ## Foreign code -/

theorem keeps_extractOp (henv : C.Obeyed env) (v : V) :
    C.Keeps f 0 t (env.extractOp v) (still t (C.key v)) :=
  Keeps.call (fun w hinv => henv.extract t _ v w hinv) fun _ ha => ⟨rfl, rfl, ha⟩

theorem keeps_hashOp (henv : C.Obeyed env) (k : K) :
    C.Keeps f 0 t (env.hashOp k) (still t (C.hash k)) :=
  Keeps.call (fun w hinv => henv.hash t _ k w hinv) fun _ ha => ⟨rfl, rfl, ha⟩

theorem keeps_keyEqOp (henv : C.Obeyed env) (a b : K) :
    C.Keeps f 0 t (env.keyEqOp a b) (still t (C.eq a b)) :=
  Keeps.call (fun w hinv => henv.keyEq t _ a b w hinv) fun _ ha => ⟨rfl, rfl, ha⟩

theorem keeps_nodeMatches (henv : C.Obeyed env) (hash : UInt64) (q : K) (cell : Cell V) :
    C.Keeps f 0 t (nodeMatches env hash q cell.2) (still t fun b =>
      if b then C.Matches hash q (.ofCell cell) else C.Differs hash q (.ofCell cell)) := by
  unfold nodeMatches
  by_cases hhash : cell.2.hash = hash
  · rw [if_pos hhash]
    refine (keeps_extractOp henv _).bindStill ?_
    intro k hk
    refine (keeps_keyEqOp henv k q).mono ?_
    intro b d t' hb
    obtain ⟨rfl, rfl, hb⟩ := hb
    refine ⟨rfl, rfl, ?_⟩
    cases b with
    | true => exact ⟨hhash, k, hk, hb⟩
    | false => exact fun _ => ⟨k, hk, hb⟩
  · rw [if_neg hhash]
    exact Keeps.pure ⟨rfl, rfl, fun h => absurd h hhash⟩

/-! ## The first match and its run -/

/-- The seeking of a first match, by induction on the nodes met. -/
theorem keeps_seek (henv : C.Obeyed env) (hash : UInt64) (q : K) (cells : List (Cell V)) :
    C.Keeps f 0 t (forIn cells none (seekAt env hash q))
      (still t (C.FirstMatch hash q (cells.map .ofCell))) := by
  induction cells with
  | nil => exact Keeps.pure ⟨rfl, rfl, fun e he => absurd he List.not_mem_nil⟩
  | cons cell cells ih =>
      rw [List.forIn_cons]
      unfold seekAt
      rw [bind_assoc]
      refine (keeps_nodeMatches henv hash q cell).bindStill ?_
      intro b hb
      cases b with
      | true => exact Keeps.pure ⟨rfl, rfl, [], _, _, rfl, rfl, hb, fun x hx => by cases hx⟩
      | false =>
          refine ih.mono ?_
          intro r d t' hr
          obtain ⟨rfl, rfl, hr⟩ := hr
          refine ⟨rfl, rfl, ?_⟩
          cases r with
          | none => exact List.forall_mem_cons.2 ⟨hb, hr⟩
          | some k =>
              obtain ⟨xs, e, ys, hsplit, hkey, hmatch, hxs⟩ := hr
              refine ⟨_ :: xs, e, ys, ?_, hkey, hmatch, List.forall_mem_cons.2 ⟨hb, hxs⟩⟩
              rw [List.map_cons, hsplit, List.cons_append]

theorem home_fencedBy (h : t.chains.WellFormed) (hash : UInt64) :
    (t.fencedBy f).home hash = .ok (t.chains.buckets.home hash) :=
  home_eq_ok (t := t.fencedBy f) h.buckets_pos hash

theorem keeps_search (henv : C.Obeyed env) (q : K) :
    C.Keeps f 0 t (search env q)
      (still t fun r => C.hash q r.1 ∧ C.FirstMatch r.1 q (t.homeRow r.1) r.2) := by
  refine Keeps.of_wellFormed ?_
  intro hwf
  unfold search
  refine (keeps_hashOp henv q).bindStill ?_
  intro hash hhash
  refine Keeps.bindQuery (home_fencedBy hwf hash) ?_
  refine Keeps.bindRead ?_
  rw [Chains.forFrom_eq_forIn]
  refine (keeps_seek henv hash q _).bindStill ?_
  intro k hk
  exact Keeps.pure ⟨rfl, rfl, hhash, hk⟩

/-- The extension of a run, by induction on the nodes met. -/
theorem keeps_extend (henv : C.Obeyed env) (hash : UInt64) (q : K) (cells : List (Cell V))
    (r : Run) :
    C.Keeps f 0 t (forIn cells r (extendRun env hash q)) (still t fun r' =>
      ∃ ms ys, cells.map .ofCell = ms ++ ys ∧ (∀ m ∈ ms, C.Matches hash q m)
        ∧ (∀ y ∈ ys.head?, C.Differs hash q y)
        ∧ r' = ⟨r.first, (ms.getLast?.map (·.key)).getD r.last, r.count + ms.length⟩) := by
  induction cells generalizing r with
  | nil =>
      refine Keeps.pure ⟨rfl, rfl, [], [], rfl, ?_, ?_, rfl⟩
      · exact fun m hm => absurd hm List.not_mem_nil
      · exact fun y hy => by cases hy
  | cons cell cells ih =>
      rw [List.forIn_cons]
      unfold extendRun
      rw [bind_assoc]
      refine (keeps_nodeMatches henv hash q cell).bindStill ?_
      intro b hb
      cases b with
      | true =>
          refine (ih _).mono ?_
          intro r' d t' hr
          obtain ⟨rfl, rfl, ms, ys, hsplit, hms, hys, hr⟩ := hr
          refine ⟨rfl, rfl, .ofCell cell :: ms, ys, ?_, List.forall_mem_cons.2 ⟨hb, hms⟩, hys, ?_⟩
          · rw [List.map_cons, hsplit, List.cons_append]
          · rw [hr]
            cases hlast : ms.getLast? with
            | none =>
                rw [List.getLast?_eq_none_iff.1 hlast]
                rfl
            | some m =>
                rw [List.getLast?_cons, hlast]
                simp only [Option.map_some, Option.getD_some, List.length_cons]
                congr 1
                omega
      | false =>
          refine Keeps.pure ⟨rfl, rfl, [], .ofCell cell :: cells.map .ofCell, rfl, ?_, ?_, rfl⟩
          · exact fun m hm => absurd hm List.not_mem_nil
          · rintro y ⟨⟩
            exact hb

theorem keeps_runOf (henv : C.Obeyed env) (q : K) :
    C.Keeps f 0 t (runOf env q)
      (still t fun r => ∃ hash, C.hash q hash ∧ C.IsRun hash q (t.homeRow hash) r) := by
  refine Keeps.of_wellFormed ?_
  intro hwf
  unfold runOf
  refine (keeps_search henv q).bindStill ?_
  intro r hr
  obtain ⟨hash, found⟩ := r
  obtain ⟨hhash, hfound⟩ := hr
  cases found with
  | none => exact Keeps.pure ⟨rfl, rfl, hash, hhash, hfound⟩
  | some k =>
      obtain ⟨xs, e, ys, hrow, rfl, hmatch, hxs⟩ := hfound
      have hlinked := hwf.linked (t.chains.buckets.home hash)
      rw [show t.chains.row _ = _ from hrow] at hlinked
      obtain ⟨m, -, hrest⟩ := Chains.segment_append.1 hlinked
      obtain rfl := (Chains.segment_cons_iff.1 hrest).1
      refine Keeps.bindRead ?_
      rw [Chains.forFrom_eq_forIn]
      refine (keeps_extend henv hash q _ _).bindStill ?_
      intro r hr
      obtain ⟨ms, zs, hsplit, hms, hzs, rfl⟩ := hr
      have hrun : e :: ys = ms ++ zs := hrest.cellsFrom_eq.symm.trans hsplit
      refine Keeps.pure ⟨rfl, rfl, hash, hhash, xs, ms, zs, ?_⟩
      refine ⟨by rw [hrow, hrun], hxs, hms, hzs, ⟨e, ?_, rfl, hmatch⟩, rfl, ?_⟩
      · rw [← hrun]
        rfl
      · exact Nat.zero_add _

/-! ## Operations -/

/-- The cursors around a run, if there is one. -/
def rangeOf (t : Table V) : Option Run → Cursor × Cursor
  | some r => (t.cursor (some r.first), t.cursor (t.chains.successor r.last))
  | none => (t.endCursor, t.endCursor)

/-- The iterator over a run, if there is one. -/
def runIterator (t : Table V) : Option Run → Iterator V
  | some r => ⟨t.chains, some r.first, t.chains.successor r.last, r.count⟩
  | none => ⟨t.chains, none, none, 0⟩

theorem keeps_find (henv : C.Obeyed env) (q : K) :
    C.Keeps none 0 t (find env q) (still t fun c =>
      ∃ hash k, C.hash q hash ∧ C.FirstMatch hash q (t.homeRow hash) k ∧ c = t.cursor k) := by
  refine Keeps.fenced ((keeps_search henv q).bindStill fun r hr => ?_)
  exact Keeps.read ⟨rfl, rfl, r.1, r.2, hr.1, hr.2, rfl⟩

theorem keeps_contains (henv : C.Obeyed env) (q : K) :
    C.Keeps none 0 t (contains env q) (still t fun b =>
      ∃ hash k, C.hash q hash ∧ C.FirstMatch hash q (t.homeRow hash) k ∧ b = k.isSome) := by
  unfold contains
  refine (keeps_find henv q).bindStill ?_
  intro c hc
  obtain ⟨hash, k, hhash, hk, rfl⟩ := hc
  refine Keeps.pure ⟨rfl, rfl, hash, k, hhash, hk, ?_⟩
  cases k <;> rfl

/-- An operation that reads its answer off a run. -/
theorem keeps_runOf_bind {α : Type} (henv : C.Obeyed env) (q : K)
    {g : Option Run → Op W V α} {answer : Option Run → α}
    (hg : ∀ r, C.Keeps f 0 t (g r) (still t fun a => a = answer r)) :
    C.Keeps f 0 t (runOf env q >>= g) (still t fun a =>
      ∃ hash r, C.hash q hash ∧ C.IsRun hash q (t.homeRow hash) r ∧ a = answer r) := by
  refine (keeps_runOf henv q).bindStill ?_
  intro r hr
  obtain ⟨hash, hhash, hr⟩ := hr
  refine (hg r).mono ?_
  intro a d t' ha
  obtain ⟨rfl, rfl, ha⟩ := ha
  exact ⟨rfl, rfl, hash, r, hhash, hr, ha⟩

theorem keeps_count (henv : C.Obeyed env) (q : K) :
    C.Keeps none 0 t (count env q) (still t fun n =>
      ∃ hash r, C.hash q hash ∧ C.IsRun hash q (t.homeRow hash) r
        ∧ n = (r.map (·.count)).getD 0) :=
  Keeps.fenced (keeps_runOf_bind henv q fun _ => Keeps.pure ⟨rfl, rfl, rfl⟩)

theorem keeps_range (henv : C.Obeyed env) (q : K) :
    C.Keeps none 0 t (range env q) (still t fun p =>
      ∃ hash r, C.hash q hash ∧ C.IsRun hash q (t.homeRow hash) r ∧ p = t.rangeOf r) := by
  refine Keeps.fenced (keeps_runOf_bind henv q fun r => ?_)
  cases r with
  | none => exact Keeps.read ⟨rfl, rfl, rfl⟩
  | some r => exact Keeps.read ⟨rfl, rfl, rfl⟩

theorem keeps_iteratorOf (henv : C.Obeyed env) (q : K) :
    C.Keeps none 0 t (iteratorOf env q) (still t fun it =>
      ∃ hash r, C.hash q hash ∧ C.IsRun hash q (t.homeRow hash) r ∧ it = t.runIterator r) := by
  refine Keeps.fenced (keeps_runOf_bind henv q fun r => ?_)
  cases r with
  | none => exact Keeps.read ⟨rfl, rfl, rfl⟩
  | some r => exact Keeps.read ⟨rfl, rfl, rfl⟩

theorem keeps_homeBucket (henv : C.Obeyed env) (q : K) :
    C.Keeps none 0 t (homeBucket env q) (still t fun i => i < t.bucketCount
      ∧ ∃ hash, C.hash q hash ∧ i = t.chains.buckets.home hash) := by
  refine Keeps.of_wellFormed ?_
  intro hwf
  refine Keeps.fenced ((keeps_hashOp henv q).bindStill fun hash hhash => ?_)
  exact Keeps.query (home_fencedBy hwf hash) ⟨rfl, rfl, hwf.home_lt hash, hash, hhash, rfl⟩

end Table

end SeparateChaining
