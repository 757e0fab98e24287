import Mathlib.Data.List.Find
import SeparateChaining.Proofs.Determined
import SeparateChaining.Proofs.Positions
import SeparateChaining.Proofs.Regrowth

/-!
# Tables that differ in their arenas

Two tables are alike if bucket by bucket their chains hold the same
values under the same cached hashes. Keys of the arena are not compared,
nor identities and growths. Each of two such tables is the other with its
keys renamed (`Alike.exists_renamed`), and what is read off chains by
their values and hashes alone is renamed with them.

A change of one table and the corresponding change of the other leave
them renamed: growing moves elements by their hashes, removing and
editing go by keys that correspond, and a node that is linked at places
that correspond extends the renaming by its key.
-/

namespace SeparateChaining

variable {V K W : Type}

namespace Element

/-- The element under another key. -/
def renamed (ρ : ArenaKey → ArenaKey) (e : Element V) : Element V := { e with key := ρ e.key }

theorem renamed_update {ρ : ArenaKey → ArenaKey} {e : Element V} {k : ArenaKey} (h : e.key ≠ k)
    (j : ArenaKey) : e.renamed (Function.update ρ k j) = e.renamed ρ := by
  rw [renamed, renamed, Function.update_of_ne h]

/-- The element without its key. -/
def trace (e : Element V) : V × UInt64 := (e.value, e.hash)

theorem eq_renamed {ρ : ArenaKey → ArenaKey} {e x : Element V} (htrace : x.trace = e.trace)
    (hkey : ρ e.key = x.key) : x = e.renamed ρ := by
  obtain ⟨hvalue, hhash⟩ := Prod.mk.inj htrace
  rw [renamed, hkey, ← hvalue, ← hhash]

end Element

namespace Chains

variable {c : Chains V} {rows : Nat → List (Element V)}

/-- The chain of a bucket holds, of all elements, those that belong there. -/
theorem Arranged.row_eq_filter (h : c.Arranged rows) (i : Nat) :
    rows i = c.elements.filter fun e => c.buckets.home e.hash = i := by
  by_cases hi : i < c.bucketCount
  · have hmem : ∀ (is : List Nat), i ∉ is →
        (is.flatMap rows).filter (fun e => c.buckets.home e.hash = i) = [] := by
      intro is hnot
      rw [List.filter_eq_nil_iff]
      intro e he
      obtain ⟨j, hj, he⟩ := List.mem_flatMap.1 he
      have hne : c.buckets.home e.hash ≠ i := by
        rw [h.home j e he]
        rintro rfl
        exact hnot hj
      simpa using hne
    have hall : (rows i).filter (fun e => c.buckets.home e.hash = i) = rows i :=
      List.filter_eq_self.2 fun e he => decide_eq_true (h.home i e he)
    rw [h.elements_split hi, List.filter_append, List.filter_append, hall,
      hmem _ (by simp), elementsFrom, hmem _ (by simp), List.nil_append, List.append_nil]
  · have hnone : c.elements.filter (fun e => c.buckets.home e.hash = i) = [] := by
      rw [List.filter_eq_nil_iff]
      intro e _
      have hlt := h.home_lt e.hash
      simp only [decide_eq_true_eq]
      omega
    rw [hnone, List.eq_nil_iff_forall_not_mem]
    exact fun e he => hi (h.lt_of_mem he)

theorem linkTo_renamed (ρ : ArenaKey → ArenaKey) (es : List (Element V)) :
    linkTo (es.map (·.renamed ρ)) = (linkTo es).map ρ := by
  cases es with
  | nil => rfl
  | cons e es => rfl

/-- The corresponding place. -/
def Place.renamed (ρ : ArenaKey → ArenaKey) : Place → Place
  | .head i => .head i
  | .after k => .after (ρ k)

theorem placeAfter_renamed (ρ : ArenaKey → ArenaKey) (i : Nat) (es : List (Element V)) :
    placeAfter i (es.map (·.renamed ρ)) = (placeAfter i es).renamed ρ := by
  rcases List.eq_nil_or_concat es with rfl | ⟨es, e, rfl⟩
  · rfl
  · rw [List.concat_eq_append, List.map_append, List.map_singleton, placeAfter_concat,
      placeAfter_concat]
    rfl

end Chains

/-! ## Likeness and renaming -/

namespace Table

variable {ρ : ArenaKey → ArenaKey} {t u t' u' : Table V}

/-- What the chains hold, bucket by bucket, without keys. -/
def traces (t : Table V) : List (List (V × UInt64)) :=
  (List.range t.bucketCount).map fun i => (t.chains.row i).map (·.trace)

/-- Bucket by bucket, the chains hold the same values under the same hashes. -/
def Alike (t u : Table V) : Prop :=
  u.bucketCount = t.bucketCount
    ∧ ∀ i < t.bucketCount, (u.chains.row i).map (·.trace) = (t.chains.row i).map (·.trace)

theorem alike_of_traces (h : t.traces = u.traces) : t.Alike u := by
  have hcount : u.bucketCount = t.bucketCount := by
    have hlen := congrArg List.length h.symm
    rwa [traces, traces, List.length_map, List.length_map, List.length_range,
      List.length_range] at hlen
  refine ⟨hcount, fun i hi => ?_⟩
  rw [traces, traces, hcount, List.map_inj_left] at h
  exact (h i (List.mem_range.2 hi)).symm

/-- The table `u` is `t` with its keys renamed. -/
structure Renamed (ρ : ArenaKey → ArenaKey) (t u : Table V) : Prop where
  bucketCount : u.bucketCount = t.bucketCount
  row : ∀ i, u.chains.row i = (t.chains.row i).map (·.renamed ρ)

theorem Renamed.alike (h : Renamed ρ t u) : t.Alike u := by
  refine ⟨h.bucketCount, fun i _ => ?_⟩
  rw [h.row, List.map_map]
  rfl

theorem Renamed.elements (h : Renamed ρ t u) :
    u.chains.elements = t.chains.elements.map (·.renamed ρ) := by
  rw [Chains.elements_eq, Chains.elements_eq, List.map_flatMap,
    show u.chains.bucketCount = t.chains.bucketCount from h.bucketCount]
  exact congrArg (List.flatMap · _) (funext h.row)

theorem Renamed.home (h : Renamed ρ t u) (hash : UInt64) :
    u.chains.buckets.home hash = t.chains.buckets.home hash :=
  Buckets.home_congr h.bucketCount hash

theorem Renamed.homeRow (h : Renamed ρ t u) (hash : UInt64) :
    u.homeRow hash = (t.homeRow hash).map (·.renamed ρ) := by
  rw [Table.homeRow, Table.homeRow, h.home, h.row]

theorem Renamed.size (h : Renamed ρ t u) (ht : t.chains.WellFormed) (hu : u.chains.WellFormed) :
    u.size = t.size := by
  rw [Table.size, Table.size, ← hu.length_elements, ← ht.length_elements, h.elements,
    List.length_map]

theorem Renamed.values (h : Renamed ρ t u) : u.values = t.values := by
  rw [Table.values, Table.values, ← Chains.map_value_elements, ← Chains.map_value_elements,
    h.elements, List.map_map]
  rfl

/-- Keys of different elements stay different. -/
theorem Renamed.injective (h : Renamed ρ t u) (hu : u.chains.WellFormed) {a b : Element V}
    (ha : a ∈ t.chains.elements) (hb : b ∈ t.chains.elements) (heq : ρ a.key = ρ b.key) :
    a = b := by
  have hnodup := hu.nodup_elements
  rw [h.elements, Chains.keysOf, List.map_map] at hnodup
  exact List.inj_on_of_nodup_map hnodup ha hb heq

theorem renamed_of_elements (ht : t.chains.WellFormed) (hu : u.chains.WellFormed)
    (hcount : u.bucketCount = t.bucketCount)
    (helements : u.chains.elements = t.chains.elements.map (·.renamed ρ)) : Renamed ρ t u := by
  refine ⟨hcount, fun i => ?_⟩
  rw [Chains.Arranged.row_eq_filter hu, Chains.Arranged.row_eq_filter ht, helements,
    List.filter_map]
  refine congrArg (List.map _) (List.filter_congr fun e _ => ?_)
  rw [Function.comp_apply, Buckets.home_congr hcount]
  rfl

/-- Takes the key at each position of the traversal of `t` to the one at the same position of the
traversal of `u`. -/
def counterpart (t u : Table V) (k : ArenaKey) : ArenaKey :=
  ((Chains.keysOf u.chains.elements)[(Chains.keysOf t.chains.elements).idxOf k]?).getD k

theorem counterpart_getElem (ht : t.chains.WellFormed) {i : Nat} (hi : i < t.chains.elements.length)
    (hi' : i < u.chains.elements.length) :
    t.counterpart u t.chains.elements[i].key = u.chains.elements[i].key := by
  have hkey : (Chains.keysOf t.chains.elements).idxOf t.chains.elements[i].key = i := by
    have hidx := ht.nodup_elements.idxOf_getElem i (by rwa [List.length_map])
    rwa [List.getElem_map] at hidx
  rw [counterpart, hkey, List.getElem?_map, List.getElem?_eq_getElem hi']
  rfl

theorem Alike.map_trace_elements (h : t.Alike u) :
    u.chains.elements.map (·.trace) = t.chains.elements.map (·.trace) := by
  obtain ⟨hcount, hrows⟩ := h
  rw [Chains.elements_eq, Chains.elements_eq, List.map_flatMap, List.map_flatMap,
    show u.chains.bucketCount = t.chains.bucketCount from hcount]
  simp only [List.flatMap]
  exact congrArg List.flatten (List.map_congr_left fun i hi => hrows i (List.mem_range.1 hi))

theorem Alike.exists_renamed (h : t.Alike u) (ht : t.chains.WellFormed)
    (hu : u.chains.WellFormed) : ∃ ρ, Renamed ρ t u := by
  have htraces := h.map_trace_elements
  have hlength : u.chains.elements.length = t.chains.elements.length := by
    have hlen := congrArg List.length htraces
    rwa [List.length_map, List.length_map] at hlen
  have helements : u.chains.elements = t.chains.elements.map (·.renamed (t.counterpart u)) := by
    refine List.ext_getElem (by rw [hlength, List.length_map]) fun i hi hi' => ?_
    rw [List.length_map] at hi'
    have htrace : u.chains.elements[i].trace = t.chains.elements[i].trace := by
      have hget := congrArg (·[i]?) htraces
      simpa [hi, hi'] using hget
    rw [List.getElem_map]
    exact Element.eq_renamed htrace (counterpart_getElem ht hi' hi)
  exact ⟨_, renamed_of_elements ht hu h.1 helements⟩

/-! ## What is read off the chains -/

/-- A cursor that is issued has the position of the corresponding one. -/
theorem Renamed.position (h : Renamed ρ t u) (ht : t.chains.WellFormed)
    (hu : u.chains.WellFormed) {l : Link} (hl : t.Issues (t.cursor l)) :
    u.position? (u.cursor (l.map ρ)) = t.position? (t.cursor l) := by
  have hcursor : ∀ (s : Table V) (m m' : Link), s.cursor m = s.cursor m' ↔ m = m' := by
    intro s m m'
    exact ⟨fun heq => congrArg Cursor.node heq, fun heq => congrArg s.cursor heq⟩
  obtain ⟨l', heq, hlive⟩ := hl
  obtain rfl := (hcursor t l l').1 heq
  rw [position?, position?, h.size ht hu]
  refine List.find?_congr fun i _ => decide_eq_decide.2 ?_
  rw [cursorAt_eq, cursorAt_eq, hcursor, hcursor, h.elements, ← List.map_drop,
    Chains.linkTo_renamed]
  constructor
  · intro heq
    cases l with
    | none => exact Option.map_eq_none_iff.1 heq
    | some k =>
        obtain ⟨j, hj, hjk⟩ := Option.map_eq_some_iff.1 heq
        obtain ⟨e, he, rfl⟩ := Option.map_eq_some_iff.1 hj
        obtain ⟨e', he', rfl⟩ := List.mem_map.1 (ht.mem_keysOf_elements.2 (hlive k rfl))
        rw [hj, h.injective hu (List.mem_of_mem_drop (List.mem_of_mem_head? he)) he' hjk]
  · intro heq
    rw [heq]

theorem issues_of_mem (ht : t.chains.WellFormed) {e : Element V} (he : e ∈ t.chains.elements) :
    t.Issues (t.cursor (some e.key)) := by
  obtain ⟨n, hn, -⟩ := ht.mem_elements_iff_get?.1 he
  exact issues_of_get? hn

theorem Renamed.block (h : Renamed ρ t u) (p : Policies V K) (q : K) :
    u.block p q = (t.block p q).map (·.renamed ρ) := by
  rw [Table.block, h.homeRow, Policies.block, List.dropWhile_map, List.takeWhile_map]
  rfl

theorem Renamed.blockRun (h : Renamed ρ t u) (p : Policies V K) (q : K) :
    u.blockRun p q = (t.blockRun p q).map fun r => ⟨ρ r.first, ρ r.last, r.count⟩ := by
  have hblock := h.block p q
  rw [Table.block, Table.block] at hblock
  rw [Table.blockRun, Policies.runIn, hblock, Table.blockRun, Policies.runIn, List.head?_map,
    List.getLast?_map, List.length_map]
  cases (p.block q (t.homeRow (p.hash q))).head? with
  | none => rfl
  | some m =>
      cases (p.block q (t.homeRow (p.hash q))).getLast? with
      | none => rfl
      | some l => rfl

/-- A run starts and ends in the block. -/
theorem mem_of_blockRun {p : Policies V K} {q : K} {r : Run} (h : t.blockRun p q = some r) :
    (∃ m ∈ t.block p q, m.key = r.first) ∧ ∃ l ∈ t.block p q, l.key = r.last := by
  rw [blockRun, Policies.runIn] at h
  obtain ⟨m, hm, rfl⟩ := Option.map_eq_some_iff.1 h
  refine ⟨⟨m, List.mem_of_mem_head? hm, rfl⟩, ?_⟩
  show ∃ l ∈ t.block p q, l.key = ((t.block p q).getLast?.map (·.key)).getD m.key
  cases hlast : (t.block p q).getLast? with
  | none => exact ⟨m, List.mem_of_mem_head? hm, rfl⟩
  | some l => exact ⟨l, List.mem_of_getLast? hlast, rfl⟩

theorem mem_of_mem_block (ht : t.chains.WellFormed) {p : Policies V K} {q : K} {e : Element V}
    (he : e ∈ t.block p q) : e ∈ t.chains.elements :=
  ht.mem_elements.2 ⟨_, mem_homeRow_of_mem_block he⟩

theorem issues_block (ht : t.chains.WellFormed) (p : Policies V K) (q : K) :
    t.Issues (t.cursor (Chains.linkTo (t.block p q))) := by
  cases hlink : Chains.linkTo (t.block p q) with
  | none => exact issues_end
  | some k =>
      obtain ⟨e, he, rfl⟩ := Option.map_eq_some_iff.1 hlink
      exact issues_of_mem ht (mem_of_mem_block ht (List.mem_of_mem_head? he))

theorem Renamed.linkTo_block (h : Renamed ρ t u) (p : Policies V K) (q : K) :
    Chains.linkTo (u.block p q) = (Chains.linkTo (t.block p q)).map ρ := by
  rw [h.block, Chains.linkTo_renamed]

theorem Renamed.besidePlace (h : Renamed ρ t u) (p : Policies V K) (v : V) :
    u.besidePlace p v = (t.besidePlace p v).renamed ρ := by
  rw [Table.besidePlace, Table.besidePlace, h.linkTo_block]
  cases Chains.linkTo (t.block p (p.extract v)) with
  | none => exact congrArg Chains.Place.head (h.home _)
  | some k => rfl

theorem Renamed.first (h : Renamed ρ t u) (ht : t.chains.WellFormed)
    (hu : u.chains.WellFormed) : u.chains.first = t.chains.first.map ρ := by
  rw [hu.first_eq, ht.first_eq, h.elements, Chains.linkTo_renamed]

/-- What comes after an element corresponds too. -/
theorem Renamed.successor (h : Renamed ρ t u) (ht : t.chains.WellFormed)
    (hu : u.chains.WellFormed) {e : Element V} (he : e ∈ t.chains.elements) :
    u.chains.successor (ρ e.key) = (t.chains.successor e.key).map ρ := by
  obtain ⟨xs, ys, hsplit⟩ := List.append_of_mem he
  have hsplit' : u.chains.elements
      = xs.map (·.renamed ρ) ++ e.renamed ρ :: ys.map (·.renamed ρ) := by
    rw [h.elements, hsplit, List.map_append, List.map_cons]
  have hnext : u.chains.successor (ρ e.key) = _ := hu.successor_eq hsplit'
  rw [hnext, ht.successor_eq hsplit, Chains.linkTo_renamed]

/-! ## Changes -/

theorem Renamed.grown (h : Renamed ρ t u) {n : Nat} (ht : t.Grown n t') (hu : u.Grown n u') :
    Renamed ρ t' u' := by
  refine ⟨hu.chains.bucketCount.trans ht.chains.bucketCount.symm, fun d => ?_⟩
  rw [hu.chains.row_eq, ht.chains.row_eq, h.elements, List.filter_map, List.map_reverse]
  rfl

theorem Renamed.roomFor (h : Renamed ρ t u) (ht : t.chains.WellFormed)
    (hu : u.chains.WellFormed) (hint : Nat) : Renamed ρ (t.roomFor hint) (u.roomFor hint) := by
  have hpos := (Ladder.bounds_fit hint).1
  rw [Table.roomFor, Table.roomFor, h.bucketCount]
  split
  · exact h
  · exact h.grown (grown_counted ht hpos) (grown_counted hu hpos)

theorem Renamed.fits (h : Renamed ρ t u) {hash : UInt64} {p : Chains.Place}
    (hfits : t.Fits hash p) : u.Fits hash (p.renamed ρ) := by
  obtain ⟨xs, ys, hrow, rfl⟩ := hfits
  refine ⟨xs.map (·.renamed ρ), ys.map (·.renamed ρ), ?_, ?_⟩
  · rw [h.homeRow, hrow, List.map_append]
  · rw [h.home, Chains.placeAfter_renamed]

theorem ne_linkedKey (ht : t.chains.WellFormed) {i : Nat} {e : Element V}
    (he : e ∈ t.chains.row i) (p : Chains.Place) (v : V) (hash : UInt64) :
    e.key ≠ t.linkedKey p v hash := by
  intro heq
  have hlive := (ht.mem_iff.1 he).1
  have hnew : t.chains.element? (t.linkedKey p v hash) = none :=
    Chains.element?_insertAt_fst p v hash
  rw [heq, hnew] at hlive
  cases hlive

/-- The renaming is extended by the key of the new node. -/
theorem Renamed.linked (h : Renamed ρ t u) (ht : t.chains.WellFormed) (hu : u.chains.WellFormed)
    {hash : UInt64} {p : Chains.Place} (hfits : t.Fits hash p) (v : V) :
    Renamed (Function.update ρ (t.linkedKey p v hash) (u.linkedKey (p.renamed ρ) v hash))
      (t.linked p v hash) (u.linked (p.renamed ρ) v hash) := by
  obtain ⟨xs, ys, hrow, hp⟩ := hfits
  have hrow' : u.homeRow hash = xs.map (·.renamed ρ) ++ ys.map (·.renamed ρ) := by
    rw [h.homeRow, hrow, List.map_append]
  have hp' : p.renamed ρ
      = Chains.placeAfter (u.chains.buckets.home hash) (xs.map (·.renamed ρ)) := by
    rw [hp, h.home, Chains.placeAfter_renamed]
  have hrows := (ht.insertAt hrow v rfl).row_eq
  have hrows' := (hu.insertAt hrow' v rfl).row_eq
  rw [← hp] at hrows
  rw [← hp'] at hrows'
  -- the new key is not among those renamed before
  have hsame : ∀ i, ∀ e ∈ t.chains.row i, e.renamed ρ = e.renamed
      (Function.update ρ (t.linkedKey p v hash) (u.linkedKey (p.renamed ρ) v hash)) :=
    fun i e he => (Element.renamed_update (ne_linkedKey ht he p v hash) _).symm
  generalize p.renamed ρ = p' at hrows' hsame
  refine ⟨?_, fun i => ?_⟩
  · show (u.chains.insertAt p' v hash).2.bucketCount = (t.chains.insertAt p v hash).2.bucketCount
    rw [Chains.bucketCount_insertAt, Chains.bucketCount_insertAt]
    exact h.bucketCount
  · show (u.chains.insertAt p' v hash).2.row i = ((t.chains.insertAt p v hash).2.row i).map _
    rw [hrows, hrows', h.home]
    by_cases hi : i = t.chains.buckets.home hash
    · subst hi
      have hmem := hsame (t.chains.buckets.home hash)
      rw [show t.chains.row _ = _ from hrow] at hmem
      rw [Function.update_self, Function.update_self, List.map_append, List.map_cons]
      refine congrArg₂ _ (List.map_congr_left fun x hx => ?_) (congrArg₂ _ ?_
        (List.map_congr_left fun y hy => ?_))
      · exact hmem x (List.mem_append_left _ hx)
      · show Element.mk (u.linkedKey p' v hash) v hash
          = ⟨Function.update ρ (t.linkedKey p v hash) _ (t.linkedKey p v hash), v, hash⟩
        rw [Function.update_self]
      · exact hmem y (List.mem_append_right _ hy)
    · rw [Function.update_of_ne hi, Function.update_of_ne hi, h.row]
      exact List.map_congr_left (hsame i)

theorem Renamed.withoutAll (h : Renamed ρ t u) (ht : t.chains.WellFormed)
    (hu : u.chains.WellFormed) {es : List (Element V)} (hes : ∀ e ∈ es, e ∈ t.chains.elements) :
    Renamed ρ (t.withoutAll (Chains.keysOf es))
      (u.withoutAll (Chains.keysOf (es.map (·.renamed ρ)))) := by
  refine ⟨?_, fun i => ?_⟩
  · show (u.chains.withoutAll _).bucketCount = (t.chains.withoutAll _).bucketCount
    rw [Chains.bucketCount_withoutAll, Chains.bucketCount_withoutAll]
    exact h.bucketCount
  · have hrow := congrFun (ht.withoutAll (Chains.keysOf es)).row_eq i
    have hrow' := congrFun (hu.withoutAll (Chains.keysOf (es.map (·.renamed ρ)))).row_eq i
    refine hrow'.trans (Eq.trans ?_ (congrArg (List.map _) hrow.symm))
    rw [h.row, List.filter_map]
    refine congrArg (List.map _) (List.filter_congr fun e he => decide_eq_decide.2 (not_congr ?_))
    have hmem := ht.mem_elements.2 ⟨i, he⟩
    rw [Chains.keysOf, List.map_map, List.mem_map, List.mem_map]
    constructor
    · rintro ⟨x, hx, heq⟩
      exact ⟨x, hx, congrArg Element.key (h.injective hu (hes x hx) hmem heq)⟩
    · rintro ⟨x, hx, heq⟩
      exact ⟨x, hx, congrArg ρ heq⟩

theorem Renamed.without (h : Renamed ρ t u) (ht : t.chains.WellFormed) (hu : u.chains.WellFormed)
    {e : Element V} (he : e ∈ t.chains.elements) :
    Renamed ρ (t.without e.key) (u.without (ρ e.key)) :=
  h.withoutAll ht hu (List.forall_mem_singleton.2 he)

theorem Renamed.edited (h : Renamed ρ t u) (ht : t.chains.WellFormed) (hu : u.chains.WellFormed)
    {e : Element V} (he : e ∈ t.chains.elements) (f : V → V) :
    Renamed ρ (t.edited e.key f) (u.edited (ρ e.key) f) := by
  refine ⟨h.bucketCount, fun i => ?_⟩
  have hrow := congrFun (ht.revalue (g := fun j v => if j = e.key then f v else v)
    fun j => get?_edited t e.key f j).row_eq i
  have hrow' := congrFun (hu.revalue (g := fun j v => if j = ρ e.key then f v else v)
    fun j => get?_edited u (ρ e.key) f j).row_eq i
  refine hrow'.trans (Eq.trans ?_ (congrArg (List.map _) hrow.symm))
  rw [h.row, List.map_map, List.map_map]
  refine List.map_congr_left fun x hx => ?_
  have hkey : ρ x.key = ρ e.key ↔ x.key = e.key := by
    constructor
    · intro heq
      exact congrArg Element.key (h.injective hu (ht.mem_elements.2 ⟨i, hx⟩) he heq)
    · exact congrArg ρ
  simp only [Function.comp_apply, Element.renamed, hkey]

end Table

end SeparateChaining
