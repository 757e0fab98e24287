import SeparateChaining.Proofs.Bag
import SeparateChaining.Proofs.Contract.Exact
import SeparateChaining.Proofs.Grouping

/-!
# Tables kept by coherent policies

A lookup reads one chain and stops at the end of one run. That it
nevertheless finds what is to be found in the whole table rests on two
facts, `Keyed`: every cached hash is that of the element's key, so all
elements with one key are on one chain, and on a chain elements with
equal keys stand side by side. Growth scatters the chains and reverses
them, so it has to be shown of the whole traversal first
(`Keyed.grouped_elements`).
-/

namespace SeparateChaining

variable {V K W : Type}

namespace Policies

variable {p : Policies V K}

/-- Whether the key of `v` equals `q`. -/
def hasKey (p : Policies V K) (q : K) (v : V) : Bool := p.keyEq (p.extract v) q

/-- Values of equal keys have the same keys. -/
theorem Coherent.hasKey_congr (hp : p.Coherent) {u v : V} (h : p.hasKey (p.extract v) u = true)
    (q : K) : p.hasKey q u = p.hasKey q v := by
  rw [Bool.eq_iff_iff]
  constructor
  · intro hu
    exact hp.trans _ _ _ (hp.symm _ _ h) hu
  · intro hv
    exact hp.trans _ _ _ h hv

theorem Coherent.hash_eq (hp : p.Coherent) {q : K} {v : V} (h : p.hasKey q v = true) :
    p.hash (p.extract v) = p.hash q :=
  hp.hash _ _ h

end Policies

namespace Table

variable {p : Policies V K} {t t' : Table V} {q : K} {e : Element V}

/-- Cached hashes are those of the keys, and equal keys stand side by side. -/
structure Keyed (p : Policies V K) (t : Table V) : Prop where
  hashed : ∀ e ∈ t.chains.content, e.hash = p.hash (p.extract e.value)
  grouped : ∀ q i, Grouped (fun e => p.hasKey q e.value) (t.chains.row i)

/-! ## One chain stands for all -/

/-- The elements with a key are on its home chain. -/
theorem Keyed.mem_homeRow (h : t.Keyed p) (hp : p.Coherent) (hwf : t.chains.WellFormed)
    (he : e ∈ t.chains.elements) (hq : p.hasKey q e.value = true) :
    e ∈ t.homeRow (p.hash q) := by
  refine hwf.mem_iff.2 ⟨hwf.mem_elements_iff.1 he, ?_⟩
  rw [h.hashed e he, hp.hash_eq hq]

/-- No element with a key stands in front of its home chain or behind it. -/
theorem Keyed.around (h : t.Keyed p) (hp : p.Coherent) (hwf : t.chains.WellFormed) (q : K) :
    ∃ xs zs, t.chains.elements = xs ++ (t.homeRow (p.hash q) ++ zs)
      ∧ (∀ x ∈ xs, p.hasKey q x.value = false) ∧ ∀ z ∈ zs, p.hasKey q z.value = false := by
  have hsplit := hwf.elements_split (hwf.home_lt (p.hash q))
  rw [List.append_assoc] at hsplit
  have hnodup : t.chains.elements.Nodup := hwf.nodup_content
  have hmem : ∀ e ∈ t.chains.elements, p.hasKey q e.value = true → e ∈ t.homeRow (p.hash q) :=
    fun e he hq => h.mem_homeRow hp hwf he hq
  generalize t.chains.elements = es at hsplit hnodup hmem
  subst hsplit
  obtain ⟨-, hrest, hxs⟩ := List.nodup_append.1 hnodup
  obtain ⟨-, -, hzs⟩ := List.nodup_append.1 hrest
  refine ⟨_, _, rfl, fun x hx => ?_, fun z hz => ?_⟩
  · refine Bool.eq_false_of_not_eq_true ?_
    intro hq
    have hrow := hmem x (List.mem_append_left _ hx) hq
    exact hxs x hx x (List.mem_append_left _ hrow) rfl
  · refine Bool.eq_false_of_not_eq_true ?_
    intro hq
    have hrow := hmem z (List.mem_append_right _ (List.mem_append_right _ hz)) hq
    exact hzs z hrow z hz rfl

theorem Keyed.grouped_elements (h : t.Keyed p) (hp : p.Coherent) (hwf : t.chains.WellFormed)
    (q : K) : Grouped (fun e => p.hasKey q e.value) t.chains.elements := by
  obtain ⟨xs, zs, hsplit, hxs, hzs⟩ := h.around hp hwf q
  rw [hsplit]
  exact ((h.grouped q _).append_right hzs).append_left hxs

/-! ## What keeps a table keyed -/

theorem keyed_ofBuckets (p : Policies V K) (id : Nat) {n : Nat} (hn : 0 < n) :
    (ofBuckets id (.replicate n) : Table V).Keyed p := by
  have hrows := (Chains.arranged_ofBuckets (V := V) hn).row_eq
  constructor
  · intro e he
    obtain ⟨i, hi⟩ := (Chains.arranged_ofBuckets hn).mem_elements.1 he
    cases hi
  · intro q i
    show Grouped _ ((Chains.ofBuckets (.replicate n)).row i)
    rw [hrows]
    exact Grouped.nil

/-- Growth leaves each new chain the reverse of a part of the old traversal. -/
theorem Keyed.widened (h : t.Keyed p) (hp : p.Coherent) (hwf : t.chains.WellFormed)
    (hwide : t.Widened t') : t'.Keyed p := by
  constructor
  · intro e he
    rw [hwide.content hwf] at he
    exact h.hashed e he
  · intro q i
    rcases hwide with rfl | ⟨n, -, hgrown⟩
    · exact h.grouped q i
    · rw [hgrown.chains.arranged.row_eq]
      exact ((h.grouped_elements hp hwf q).sublist List.filter_sublist).reverse

/-- An element may be linked with the hash of its key where it does not part equal keys. -/
theorem Keyed.linked (h : t.Keyed p) (hwf : t.chains.WellFormed) {v : V}
    {xs ys : List (Element V)} (hrow : t.homeRow (p.hash (p.extract v)) = xs ++ ys)
    (hgrouped : ∀ q k, Grouped (fun e => p.hasKey q e.value)
      (xs ++ ⟨k, v, p.hash (p.extract v)⟩ :: ys)) :
    (t.linked (Chains.placeAfter (t.chains.buckets.home (p.hash (p.extract v))) xs) v
      (p.hash (p.extract v))).Keyed p := by
  constructor
  · intro e he
    rw [content_linked hwf ⟨xs, ys, hrow, rfl⟩, Multiset.mem_cons] at he
    rcases he with rfl | he
    · rfl
    · exact h.hashed e he
  · intro q i
    have hnew := (hwf.insertAt hrow v rfl).row_eq
    show Grouped _ ((t.chains.insertAt _ v _).2.row i)
    rw [hnew]
    by_cases hi : i = t.chains.buckets.home (p.hash (p.extract v))
    · subst hi
      rw [Function.update_self]
      exact hgrouped q _
    · rw [Function.update_of_ne hi]
      exact h.grouped q i

/-- A value whose key is new may be linked at the head of its home chain. -/
theorem Keyed.linked_home (h : t.Keyed p) (hp : p.Coherent) (hwf : t.chains.WellFormed) {v : V}
    (hnew : ∀ e ∈ t.chains.elements, p.hasKey (p.extract v) e.value = false) :
    (t.linked (t.homePlace (p.hash (p.extract v))) v (p.hash (p.extract v))).Keyed p := by
  have hrow : t.homeRow (p.hash (p.extract v)) = [] ++ t.homeRow (p.hash (p.extract v)) := rfl
  refine h.linked hwf hrow fun q k => (h.grouped q _).cons ?_
  intro hq e he
  -- an element with the key of `v` would have been found
  refine Bool.eq_false_of_not_eq_true ?_
  intro hqe
  have hsame : p.hasKey (p.extract v) e.value = true :=
    hp.trans _ _ _ hqe (hp.symm _ _ hq)
  rw [hnew e (hwf.mem_elements.2 ⟨_, he⟩)] at hsame
  cases hsame

/-- A value may be linked after an element with an equal key. -/
theorem Keyed.linked_after (h : t.Keyed p) (hp : p.Coherent) (hwf : t.chains.WellFormed) {v : V}
    {xs ys : List (Element V)} (hrow : t.homeRow (p.hash (p.extract v)) = xs ++ e :: ys)
    (he : p.hasKey (p.extract v) e.value = true) :
    (t.linked (.after e.key) v (p.hash (p.extract v))).Keyed p := by
  have hrow' : t.homeRow (p.hash (p.extract v)) = (xs ++ [e]) ++ ys := by
    rw [hrow, List.append_assoc]
    rfl
  have hlinked := h.linked hwf hrow' fun q k => ?_
  · rwa [Chains.placeAfter_concat] at hlinked
  · have hsame : p.hasKey q v = p.hasKey q e.value := (hp.hasKey_congr he q).symm
    have hgrouped := h.grouped q (t.chains.buckets.home (p.hash (p.extract v)))
    rw [show t.chains.row _ = _ from hrow] at hgrouped
    rw [List.append_assoc]
    exact hgrouped.insert_after hsame

theorem Keyed.withoutAll (h : t.Keyed p) (hwf : t.chains.WellFormed) (ks : List ArenaKey) :
    (t.withoutAll ks).Keyed p := by
  constructor
  · intro e he
    rw [Table.withoutAll, hwf.content_withoutAll] at he
    exact h.hashed e (Multiset.mem_of_mem_filter he)
  · intro q i
    show Grouped _ ((t.chains.withoutAll ks).row i)
    rw [(hwf.withoutAll ks).row_eq]
    exact (h.grouped q i).sublist List.filter_sublist

theorem Keyed.without (h : t.Keyed p) (hwf : t.chains.WellFormed) (k : ArenaKey) :
    (t.without k).Keyed p :=
  h.withoutAll hwf [k]

/-- The values of `t` are replaced in `t'`, each by one with an equal key. -/
structure Revalued (p : Policies V K) (t : Table V) (g : ArenaKey → V → V) (t' : Table V) :
    Prop where
  wellFormed : t'.chains.WellFormed
  row : ∀ i, t'.chains.row i = (t.chains.row i).map fun e => { e with value := g e.key e.value }
  keys : ∀ e ∈ t.chains.elements, p.hasKey (p.extract e.value) (g e.key e.value) = true

theorem Revalued.mem_elements {g : ArenaKey → V → V} (h : t.Revalued p g t')
    (hwf : t.chains.WellFormed) {e' : Element V} (he' : e' ∈ t'.chains.elements) :
    ∃ e ∈ t.chains.elements, e' = { e with value := g e.key e.value } := by
  obtain ⟨i, hi⟩ := h.wellFormed.mem_elements.1 he'
  rw [h.row] at hi
  obtain ⟨e, he, rfl⟩ := List.mem_map.1 hi
  exact ⟨e, hwf.mem_elements.2 ⟨i, he⟩, rfl⟩

/-- Nodes whose values alone are replaced stay where they are. -/
theorem revalued_of_get? (hwf : t.chains.WellFormed) {g : ArenaKey → V → V}
    (hbuckets : t'.chains.buckets = t.chains.buckets)
    (hg : ∀ k, t'.chains.nodes.get? k
      = (t.chains.nodes.get? k).map fun n => { n with value := g k n.value })
    (hkeys : ∀ k n, t.chains.nodes.get? k = some n →
      p.hasKey (p.extract n.value) (g k n.value) = true) : t.Revalued p g t' := by
  have hrevalued := hwf.revalue hg
  rw [← hbuckets] at hrevalued
  refine ⟨hrevalued.wellFormed, congrFun hrevalued.row_eq, fun e he => ?_⟩
  obtain ⟨n, hn, heq⟩ := Chains.element?_eq_some.1 (hwf.mem_elements_iff.1 he)
  rw [congrArg Element.value heq]
  exact hkeys _ n hn

theorem Keyed.revalued (h : t.Keyed p) (hp : p.Coherent) (hwf : t.chains.WellFormed)
    {g : ArenaKey → V → V} (hg : t.Revalued p g t') : t'.Keyed p := by
  constructor
  · intro e' he'
    obtain ⟨e, he, rfl⟩ := hg.mem_elements hwf he'
    exact (h.hashed e he).trans (hp.hash_eq (hg.keys e he)).symm
  · intro q i
    rw [hg.row]
    refine (h.grouped q i).of_map_eq ?_
    rw [List.map_map]
    refine List.map_congr_left ?_
    intro e he
    exact hp.hasKey_congr (hg.keys e (hwf.mem_elements.2 ⟨i, he⟩)) q

theorem revalued_edited (hp : p.Coherent) (hwf : t.chains.WellFormed) {k : ArenaKey} {n : Node V}
    (hn : t.chains.nodes.get? k = some n) {f : V → V}
    (hf : p.hasKey (p.extract n.value) (f n.value) = true) :
    t.Revalued p (fun j v => if j = k then f v else v) (t.edited k f) := by
  refine revalued_of_get? hwf rfl (get?_edited t k f) fun j m hm => ?_
  by_cases hj : j = k
  · subst hj
    obtain rfl := Option.some.inj (hn.symm.trans hm)
    rwa [if_pos rfl]
  · rw [if_neg hj]
    exact hp.refl _

/-- A value may be replaced by one with an equal key. -/
theorem Keyed.edited (h : t.Keyed p) (hp : p.Coherent) (hwf : t.chains.WellFormed)
    {k : ArenaKey} {n : Node V} (hn : t.chains.nodes.get? k = some n) {f : V → V}
    (hf : p.hasKey (p.extract n.value) (f n.value) = true) : (t.edited k f).Keyed p :=
  h.revalued hp hwf (revalued_edited hp hwf hn hf)

/-! ## What is found -/

/-- Of the traversal, `ms` is what has the key `q`, and the run `r` stands for it. -/
structure Stretch (p : Policies V K) (t : Table V) (q : K) (r : Option Run)
    (xs ms zs : List (Element V)) : Prop where
  split : t.chains.elements = xs ++ (ms ++ zs)
  before : ∀ x ∈ xs, p.hasKey q x.value = false
  within : ∀ m ∈ ms, p.hasKey q m.value = true
  after : ∀ z ∈ zs, p.hasKey q z.value = false
  range : t.rangeOf r = (t.cursor (Chains.linkTo (ms ++ zs)), t.cursor (Chains.linkTo zs))
  iterator : t.runIterator r
    = ⟨t.chains, Chains.linkTo (ms ++ zs), Chains.linkTo zs, ms.length⟩
  count : (r.map (·.count)).getD 0 = ms.length

section Lookup

variable {C : Contract V K W}

theorem hasKey_of_matches (hC : C.Says p) (hm : C.Matches (p.hash q) q e) :
    p.hasKey q e.value = true := by
  obtain ⟨-, k, hk, heq⟩ := hm
  obtain rfl := hC.key hk
  exact (hC.eq heq).symm

theorem Keyed.not_hasKey_of_differs (h : t.Keyed p) (hp : p.Coherent) (hC : C.Says p)
    (he : e ∈ t.chains.elements) (hd : C.Differs (p.hash q) q e) :
    p.hasKey q e.value = false := by
  -- were the keys equal, the hashes would be too, and the keys would have been compared
  refine Bool.eq_false_of_not_eq_true ?_
  intro hq
  obtain ⟨k, hk, heq⟩ := hd ((h.hashed e he).trans (hp.hash_eq hq))
  obtain rfl := hC.key hk
  cases (hC.eq heq).trans hq

/-- If no match is found on the home chain, there is none in the table. -/
theorem Keyed.none_of_firstMatch (h : t.Keyed p) (hp : p.Coherent) (hC : C.Says p)
    (hwf : t.chains.WellFormed) (hfound : C.FirstMatch (p.hash q) q (t.homeRow (p.hash q)) none) :
    ∀ e ∈ t.chains.elements, p.hasKey q e.value = false := by
  intro e he
  refine Bool.eq_false_of_not_eq_true ?_
  intro hq
  have hrow := h.mem_homeRow hp hwf he hq
  rw [h.not_hasKey_of_differs hp hC he (hfound e hrow)] at hq
  cases hq

theorem match_of_firstMatch (hC : C.Says p) {k : ArenaKey}
    (hfound : C.FirstMatch (p.hash q) q (t.homeRow (p.hash q)) (some k)) :
    ∃ xs e ys, t.homeRow (p.hash q) = xs ++ e :: ys ∧ e.key = k ∧ p.hasKey q e.value = true := by
  obtain ⟨xs, e, ys, hrow, hkey, hmatch, -⟩ := hfound
  exact ⟨xs, e, ys, hrow, hkey, hasKey_of_matches hC hmatch⟩

theorem stretch_none (h : ∀ e ∈ t.chains.elements, p.hasKey q e.value = false) :
    t.Stretch p q none t.chains.elements [] [] where
  split := by simp
  before := h
  within _ hm := by cases hm
  after _ hz := by cases hz
  range := rfl
  iterator := rfl
  count := rfl

/-- If no element both matches and differs, a run that is found is not empty: its first node
matched, and what stands behind the run does not. -/
theorem ne_nil_of_spans {hash : UInt64} {es xs ms ys : List (Element V)} {r : Run}
    (h : C.Spans hash q es r xs ms ys)
    (hclear : ∀ e ∈ es, C.Matches hash q e → ¬C.Differs hash q e) : ms ≠ [] := by
  rintro rfl
  obtain ⟨m, hm, -, hmatch⟩ := h.start
  have hmem : m ∈ es := by
    rw [h.split]
    exact List.mem_append_right _ (List.mem_of_mem_head? hm)
  exact hclear m hmem hmatch (h.after m hm)

/-- Where a run that is not empty starts, and where it ends. -/
theorem links_of_spans (hwf : t.chains.WellFormed) {hash : UInt64}
    {es xs ms ys as zs : List (Element V)} {r : Run} (h : C.Spans hash q es r xs ms ys)
    (hne : ms ≠ []) (hsplit : t.chains.elements = as ++ (ms ++ zs)) :
    some r.first = Chains.linkTo (ms ++ zs) ∧ t.chains.successor r.last = Chains.linkTo zs := by
  constructor
  · obtain ⟨m, hm, hfirst, -⟩ := h.start
    obtain ⟨m', ms', rfl⟩ := List.exists_cons_of_ne_nil hne
    obtain rfl := Option.some.inj hm
    rw [← hfirst]
    rfl
  · rcases List.eq_nil_or_concat ms with rfl | ⟨ms', l, rfl⟩
    · exact absurd rfl hne
    · rw [List.concat_eq_append] at hsplit h
      rw [h.last, List.getLast?_concat]
      have hlast : t.chains.elements = (as ++ ms') ++ l :: zs := by
        rw [hsplit]
        simp
      exact hwf.successor_eq hlast

/-- The run that is found is all that has the key. -/
theorem Keyed.stretch_of_spans (h : t.Keyed p) (hp : p.Coherent) (hC : C.Says p)
    (hwf : t.chains.WellFormed) {r : Run} {xs ms ys : List (Element V)}
    (hspans : C.Spans (p.hash q) q (t.homeRow (p.hash q)) r xs ms ys) :
    ∃ xs zs, t.Stretch p q (some r) xs ms zs := by
  obtain ⟨as, bs, hsplit, has, hbs⟩ := h.around hp hwf q
  have hmem : ∀ e ∈ t.homeRow (p.hash q), e ∈ t.chains.elements := by
    intro e he
    rw [hsplit]
    exact List.mem_append_right _ (List.mem_append_left _ he)
  have hdiffers : ∀ e ∈ t.homeRow (p.hash q), C.Differs (p.hash q) q e →
      p.hasKey q e.value = false := fun e he => h.not_hasKey_of_differs hp hC (hmem e he)
  have hne : ms ≠ [] := ne_nil_of_spans hspans fun e he hmatch hdiffer => by
    cases (hasKey_of_matches hC hmatch).symm.trans (hdiffers e he hdiffer)
  have hgrouped := h.grouped q (t.chains.buckets.home (p.hash q))
  rw [show t.chains.row _ = _ from hspans.split] at hgrouped
  rw [hspans.split] at hsplit hdiffers
  have hms : ∀ m ∈ ms, p.hasKey q m.value = true :=
    fun m hm => hasKey_of_matches hC (hspans.within m hm)
  have hhead : ∀ y ∈ ys.head?, p.hasKey q y.value = false := by
    intro y hy
    refine hdiffers y ?_ (hspans.after y hy)
    exact List.mem_append_right _ (List.mem_append_right _ (List.mem_of_mem_head? hy))
  have hys : ∀ y ∈ ys, p.hasKey q y.value = false := hgrouped.none_after hne hms hhead
  have hsplit' : t.chains.elements = (as ++ xs) ++ (ms ++ (ys ++ bs)) := by
    rw [hsplit]
    simp only [List.append_assoc]
  obtain ⟨hstart, hstop⟩ := links_of_spans hwf hspans hne hsplit'
  refine ⟨as ++ xs, ys ++ bs, hsplit', fun x hx => ?_, hms, fun z hz => ?_, ?_, ?_, hspans.count⟩
  · rcases List.mem_append.1 hx with hx | hx
    · exact has x hx
    · exact hdiffers x (List.mem_append_left _ hx) (hspans.before x hx)
  · rcases List.mem_append.1 hz with hz | hz
    · exact hys z hz
    · exact hbs z hz
  · rw [← hstart, ← hstop]
    rfl
  · rw [← hstart, ← hstop, ← hspans.count]
    rfl

theorem Keyed.stretch_of_isRun (h : t.Keyed p) (hp : p.Coherent) (hC : C.Says p)
    (hwf : t.chains.WellFormed) {r : Option Run}
    (hrun : C.IsRun (p.hash q) q (t.homeRow (p.hash q)) r) :
    ∃ xs ms zs, t.Stretch p q r xs ms zs := by
  cases r with
  | none => exact ⟨_, [], [], stretch_none (h.none_of_firstMatch hp hC hwf hrun)⟩
  | some r =>
      obtain ⟨xs, ms, ys, hspans⟩ := hrun
      obtain ⟨xs, zs, hstretch⟩ := h.stretch_of_spans hp hC hwf hspans
      exact ⟨xs, ms, zs, hstretch⟩

/-- What a search finds. -/
theorem Keyed.found (h : t.Keyed p) (hp : p.Coherent) (hC : C.Says p)
    (hwf : t.chains.WellFormed) {l : Link}
    (hl : C.FirstMatch (p.hash q) q (t.homeRow (p.hash q)) l) :
    (l = none ∧ ∀ v ∈ t.bag, p.hasKey q v = false)
      ∨ ∃ k, l = some k ∧ ∃ v ∈ t.bag, t.get (t.cursor l) = .ok v ∧ p.hasKey q v = true := by
  cases l with
  | none =>
      refine Or.inl ⟨rfl, fun v hv => ?_⟩
      obtain ⟨e, he, rfl⟩ := mem_bag.1 hv
      exact h.none_of_firstMatch hp hC hwf hl e he
  | some k =>
      obtain ⟨xs, e, ys, hrow, rfl, hq⟩ := match_of_firstMatch hC hl
      have he : e ∈ t.homeRow (p.hash q) := by simp [hrow]
      have helem : e ∈ t.chains.elements := hwf.mem_elements.2 ⟨_, he⟩
      exact Or.inr ⟨_, rfl, e.value, mem_bag.2 ⟨e, helem, rfl⟩,
        get_cursor (hwf.mem_elements_iff.1 helem), hq⟩

end Lookup

/-! ## Bags and what is found -/

namespace Stretch

variable {r : Option Run} {xs ms zs : List (Element V)}

theorem bag_eq (h : t.Stretch p q r xs ms zs) :
    t.bag = ↑(xs.map (·.value) ++ (ms.map (·.value) ++ zs.map (·.value))) := by
  rw [Table.bag_eq, Chains.content, h.split, Multiset.map_coe, List.map_append, List.map_append]

/-- The stretch is what of the bag has the key. -/
theorem filter_bag (h : t.Stretch p q r xs ms zs) :
    t.bag.filter (p.hasKey q · = true) = ↑(ms.map (·.value)) := by
  have hxs : (xs.map (·.value)).filter (p.hasKey q ·) = [] := by
    simpa [List.filter_eq_nil_iff] using h.before
  have hms : (ms.map (·.value)).filter (p.hasKey q ·) = ms.map (·.value) := by
    simpa [List.filter_eq_self] using h.within
  have hzs : (zs.map (·.value)).filter (p.hasKey q ·) = [] := by
    simpa [List.filter_eq_nil_iff] using h.after
  rw [h.bag_eq, Multiset.filter_coe]
  simp only [Bool.decide_eq_true, List.filter_append, hxs, hms, hzs, List.nil_append,
    List.append_nil]

theorem countP_bag (h : t.Stretch p q r xs ms zs) :
    t.bag.countP (p.hasKey q · = true) = ms.length := by
  rw [Multiset.countP_eq_card_filter, h.filter_bag, Multiset.coe_card, List.length_map]

/-- What is left of the bag without the stretch is what has other keys. -/
theorem filter_not_bag (h : t.Stretch p q r xs ms zs) :
    t.bag.filter (p.hasKey q · = false) = ↑((xs ++ zs).map (·.value)) := by
  have hxs : (xs.map (·.value)).filter (p.hasKey q · = false) = xs.map (·.value) := by
    simpa [List.filter_eq_self] using h.before
  have hms : (ms.map (·.value)).filter (p.hasKey q · = false) = [] := by
    simpa [List.filter_eq_nil_iff] using h.within
  have hzs : (zs.map (·.value)).filter (p.hasKey q · = false) = zs.map (·.value) := by
    simpa [List.filter_eq_self] using h.after
  rw [h.bag_eq, Multiset.filter_coe]
  simp only [List.filter_append, hxs, hms, hzs, List.nil_append, List.map_append]

end Stretch

end Table

end SeparateChaining
