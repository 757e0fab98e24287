import Mathlib.Logic.Function.Basic
import SeparateChaining.Chains.Move
import SeparateChaining.Proofs.Chains.WellFormed

/-!
# Linking and unlinking

What the changes at a place do to the rows. A place on the chain of
bucket `i` is named by the elements before it: `placeAfter i xs` is the
head of the bucket if `xs` is empty, and else the node of the last of
`xs`. So linking and unlinking have one law each, whether at a head, in
the middle or at the end of a chain:

- `Arranged.insertAt`: a new node goes between the elements before the
  place and those after it, and all else stays.
- `Arranged.without`: the node of a key goes, and all else stays, in
  its order.

Both come from `linked_setLink`, which leads the link at a place to
another chain.
-/

namespace SeparateChaining.Chains

variable {V : Type} {c : Chains V} {rows : Nat → List (Element V)}

/-! ## Elements by key -/

/-- The element whose node a key names. -/
def element? (c : Chains V) (k : ArenaKey) : Option (Element V) :=
  (c.nodes.get? k).map fun n => ⟨k, n.value, n.hash⟩

theorem element?_eq_some {k : ArenaKey} {e : Element V} :
    c.element? k = some e
      ↔ ∃ n, c.nodes.get? k = some n ∧ e = ⟨k, n.value, n.hash⟩ := by
  rw [element?, Option.map_eq_some_iff]
  exact exists_congr fun n => and_congr_right fun _ => eq_comm

theorem key_of_element? {k : ArenaKey} {e : Element V} (h : c.element? k = some e) :
    e.key = k := by
  obtain ⟨n, -, rfl⟩ := element?_eq_some.1 h
  rfl

/-- Chains are arranged in rows that hold, each once, the elements whose home they are. -/
theorem Arranged.mem_iff (h : c.Arranged rows) {i : Nat} {e : Element V} :
    e ∈ rows i ↔ c.element? e.key = some e ∧ c.buckets.home e.hash = i := by
  constructor
  · intro he
    obtain ⟨n, hn, hv, hh⟩ := h.get? he
    refine ⟨element?_eq_some.2 ⟨n, hn, ?_⟩, h.home i e he⟩
    rw [hv, hh]
  · rintro ⟨hsome, rfl⟩
    obtain ⟨n, hn, he⟩ := element?_eq_some.1 hsome
    have hmem := h.mem_home hn
    rw [← he] at hmem
    rwa [show n.hash = e.hash by rw [he]] at hmem

/-- To arrange chains it is enough to link the rows and to say what is in them. -/
theorem arranged_of_mem_iff (hpos : 0 < c.bucketCount)
    (hlinked : ∀ i, Segment c.nodes (c.buckets.head i) (rows i) none)
    (hmem : ∀ i e, e ∈ rows i ↔ c.element? e.key = some e ∧ c.buckets.home e.hash = i) :
    c.Arranged rows where
  buckets_pos := hpos
  linked := hlinked
  home i e he := ((hmem i e).1 he).2
  complete k n hn := by
    have he : c.element? k = some ⟨k, n.value, n.hash⟩ := element?_eq_some.2 ⟨n, hn, rfl⟩
    exact ⟨_, ⟨k, n.value, n.hash⟩, (hmem _ _).2 ⟨he, rfl⟩, rfl⟩

theorem Arranged.mem_elements_iff (h : c.Arranged rows) {e : Element V} :
    e ∈ c.elements ↔ c.element? e.key = some e := by
  rw [h.mem_elements]
  constructor
  · rintro ⟨i, he⟩
    exact (h.mem_iff.1 he).1
  · intro he
    exact ⟨_, h.mem_iff.2 ⟨he, rfl⟩⟩

@[simp] theorem element?_setLink (p : Place) (l : Link) (k : ArenaKey) :
    (c.setLink p l).element? k = c.element? k := by
  cases p with
  | head i => rfl
  | after j =>
      simp only [setLink, element?, Arena.get?_modify]
      by_cases hk : k = j
      · rw [if_pos hk, hk, Option.map_map]
        rfl
      · rw [if_neg hk]

theorem element?_delete (k j : ArenaKey) :
    (c.delete k).2.element? j = if j = k then none else c.element? j := by
  show ((c.nodes.remove k).2.get? j).map _ = _
  rw [Arena.get?_remove]
  by_cases h : j = k
  · rw [if_pos h, if_pos h]
    rfl
  · rw [if_neg h, if_neg h]
    rfl

theorem delete_fst (k : ArenaKey) : (c.delete k).1 = (c.element? k).map (·.value) := by
  show ((c.nodes.remove k).1).map _ = _
  rw [Arena.remove_fst, element?, Option.map_map]
  rfl

theorem element?_insertAt (p : Place) (v : V) (hash : UInt64) (k : ArenaKey) :
    (c.insertAt p v hash).2.element? k
      = if k = (c.insertAt p v hash).1 then some ⟨k, v, hash⟩ else c.element? k := by
  show (setLink _ p _).element? k = _
  rw [element?_setLink]
  show ((c.nodes.insert ⟨v, hash, c.linkAt p⟩).2.get? k).map _ = _
  rw [Arena.get?_insert]
  show _ = if k = (c.nodes.insert ⟨v, hash, c.linkAt p⟩).1 then _ else _
  by_cases h : k = (c.nodes.insert ⟨v, hash, c.linkAt p⟩).1
  · rw [if_pos h, if_pos h]
    rfl
  · rw [if_neg h, if_neg h]
    rfl

theorem element?_insertAt_fst (p : Place) (v : V) (hash : UInt64) :
    c.element? (c.insertAt p v hash).1 = none := by
  show (c.nodes.get? (c.nodes.insert ⟨v, hash, c.linkAt p⟩).1).map _ = none
  rw [Arena.get?_insert_fst]
  rfl

@[simp] theorem home_setLink (p : Place) (l : Link) (hash : UInt64) :
    (c.setLink p l).buckets.home hash = c.buckets.home hash := by
  cases p with
  | head i => exact Buckets.home_setHead ..
  | after j => rfl

@[simp] theorem bucketCount_setLink (p : Place) (l : Link) :
    (c.setLink p l).bucketCount = c.bucketCount := by
  cases p with
  | head i => exact Buckets.size_setHead ..
  | after j => rfl

/-! ## Places -/

/-- The place on the chain of bucket `i` that the elements `xs` are before. -/
def placeAfter (i : Nat) (xs : List (Element V)) : Place :=
  match xs.getLast? with
  | none => .head i
  | some e => .after e.key

@[simp] theorem placeAfter_nil (i : Nat) : placeAfter i ([] : List (Element V)) = .head i := rfl

@[simp] theorem placeAfter_concat (i : Nat) (xs : List (Element V)) (e : Element V) :
    placeAfter i (xs ++ [e]) = .after e.key := by
  rw [placeAfter, List.getLast?_concat]

/-- The link at a place is the one that the elements before it end at. -/
theorem linkAt_placeAfter {i : Nat} {xs : List (Element V)} {m : Link}
    (h : Segment c.nodes (c.buckets.head i) xs m) : c.linkAt (placeAfter i xs) = m := by
  rcases List.eq_nil_or_concat xs with rfl | ⟨xs, e, rfl⟩
  · exact segment_nil_iff.1 h
  · rw [List.concat_eq_append] at h ⊢
    obtain ⟨j, -, he⟩ := segment_append.1 h
    obtain ⟨-, n, hn, -, hm⟩ := segment_cons_iff.1 he
    rw [placeAfter_concat, linkAt, hn]
    exact segment_nil_iff.1 hm

/-- Leading the link after `xs` to the chain of `zs` puts `zs` in the place of what followed `xs`,
and leaves the other chains. -/
theorem linked_setLink (hlinked : ∀ j, Segment c.nodes (c.buckets.head j) (rows j) none)
    {i : Nat} (hi : i < c.bucketCount) {xs ys zs : List (Element V)} (hrow : rows i = xs ++ ys)
    {l : Link} (hl : Segment c.nodes l zs none) (hzs : ∀ e ∈ xs, e.key ∉ keysOf zs)
    (hother : ∀ j, j ≠ i → ∀ e ∈ xs, e.key ∉ keysOf (rows j)) (j : Nat) :
    Segment (c.setLink (placeAfter i xs) l).nodes
      ((c.setLink (placeAfter i xs) l).buckets.head j)
      (Function.update rows i (xs ++ zs) j) none := by
  have hchain := hlinked i
  have hnodup := (hlinked i).nodup
  rw [hrow] at hchain hnodup
  rcases List.eq_nil_or_concat xs with rfl | ⟨xs, e, rfl⟩
  · rw [placeAfter_nil]
    show Segment c.nodes ((c.buckets.setHead i l).head j) _ none
    by_cases hj : j = i
    · subst hj
      rw [Buckets.head_setHead_self hi, Function.update_self]
      exact hl
    · rw [Buckets.head_setHead_ne hj, Function.update_of_ne hj]
      exact hlinked j
  · rw [List.concat_eq_append] at hrow hzs hother hchain hnodup ⊢
    rw [placeAfter_concat]
    have he : e ∈ xs ++ [e] := by simp
    show Segment (c.nodes.modify e.key _) (c.buckets.head j) _ none
    by_cases hj : j = i
    · subst hj
      rw [Function.update_self]
      obtain ⟨m, hxs, -⟩ := segment_append.1 hchain
      have hfirst : e.key ∉ keysOf xs := by
        intro hmem
        simp only [keysOf, List.map_append, List.map_cons, List.map_nil, List.append_assoc,
          List.nodup_append] at hnodup
        exact hnodup.2.2 _ hmem _ (by simp) rfl
      exact segment_append.2 ⟨l, hxs.setNext hfirst, hl.modify (hzs e he) _⟩
    · rw [Function.update_of_ne hj]
      exact (hlinked j).modify (hother j hj e he) _

/-! ## Linking a new node -/

@[simp] theorem bucketCount_insertAt (p : Place) (v : V) (hash : UInt64) :
    (c.insertAt p v hash).2.bucketCount = c.bucketCount :=
  bucketCount_setLink ..

theorem home_insertAt (p : Place) (v : V) (hash x : UInt64) :
    (c.insertAt p v hash).2.buckets.home x = c.buckets.home x :=
  home_setLink ..

/-- A new node goes between the elements before its place and those after it. -/
theorem Arranged.insertAt (h : c.Arranged rows) {i : Nat} {xs ys : List (Element V)}
    (hrow : rows i = xs ++ ys) (v : V) {hash : UInt64} (hhome : c.buckets.home hash = i) :
    (c.insertAt (placeAfter i xs) v hash).2.Arranged (Function.update rows i
      (xs ++ ⟨(c.insertAt (placeAfter i xs) v hash).1, v, hash⟩ :: ys)) := by
  have hi : i < c.bucketCount := hhome ▸ h.home_lt hash
  have hchain := h.linked i
  rw [hrow] at hchain
  obtain ⟨m, hxs, hys⟩ := segment_append.1 hchain
  have hlink : c.linkAt (placeAfter i xs) = m := linkAt_placeAfter hxs
  have hnone := element?_insertAt_fst (c := c) (placeAfter i xs) v hash
  have hnodes : c.nodes.get? (c.insertAt (placeAfter i xs) v hash).1 = none :=
    Option.map_eq_none_iff.1 hnone
  have hmem : ∀ e ∈ xs, e ∈ rows i := fun e he => hrow ▸ List.mem_append_left _ he
  refine arranged_of_mem_iff ?_ (fun j => ?_) fun j e => ?_
  · rw [bucketCount_insertAt]
    exact h.buckets_pos
  · refine linked_setLink (c := ⟨(c.nodes.insert ⟨v, hash, c.linkAt (placeAfter i xs)⟩).2,
      c.buckets⟩) (fun j => (h.linked j).insert _) hi hrow ?_ (fun e he hmem' => ?_)
      (fun j hj e he => h.not_mem_of_ne (Ne.symm hj) (hmem e he)) j
    · refine segment_cons_iff.2 ⟨rfl, _, Arena.get?_insert_self .., rfl, ?_⟩
      rw [hlink]
      exact hys.insert _
    · rcases List.mem_cons.1 hmem' with heq | hys'
      · refine h.not_mem_of_none hnodes i ?_
        rw [← show e.key = (c.insertAt (placeAfter i xs) v hash).1 from heq]
        exact List.mem_map_of_mem (hmem e he)
      · have hnodup := h.nodup i
        rw [hrow, keysOf, List.map_append, List.nodup_append] at hnodup
        exact hnodup.2.2 _ (List.mem_map_of_mem he) _ hys' rfl
  · rw [element?_insertAt, home_insertAt]
    generalize (c.insertAt (placeAfter i xs) v hash).1 = k at hnone
    have hrows : e ∈ Function.update rows i (xs ++ ⟨k, v, hash⟩ :: ys) j
        ↔ (e = ⟨k, v, hash⟩ ∧ j = i) ∨ e ∈ rows j := by
      by_cases hj : j = i
      · subst hj
        rw [Function.update_self, hrow]
        simp only [List.mem_append, List.mem_cons, and_true]
        tauto
      · rw [Function.update_of_ne hj]
        simp [hj]
    rw [hrows, h.mem_iff]
    by_cases hk : e.key = k
    · rw [if_pos hk, hk, hnone]
      constructor
      · rintro (⟨rfl, rfl⟩ | ⟨hcon, -⟩)
        · exact ⟨rfl, hhome⟩
        · cases hcon
      · rintro ⟨he, hj⟩
        obtain rfl := Option.some.inj he
        exact Or.inl ⟨rfl, hj ▸ hhome⟩
    · rw [if_neg hk]
      constructor
      · rintro (⟨rfl, -⟩ | hmem)
        · exact absurd rfl hk
        · exact hmem
      · exact Or.inr

/-! ## Unlinking a node -/

theorem bucketCount_delete (k : ArenaKey) : (c.delete k).2.bucketCount = c.bucketCount := rfl

/-- The search for the place of a node stops at the node before it. -/
theorem forLinks_linksTo {nodes : Arena (Node V)} {l : Link} {k : ArenaKey}
    {xs : List (Element V)} {e : Element V} (h : Segment nodes l (xs ++ [e]) (some k))
    (hk : k ∉ keysOf (xs ++ [e])) {fuel : Nat} (hfuel : xs.length < fuel) :
    Id.run (forLinks nodes (fun (p, n) _ =>
      pure <| if linksTo n k then .done (some (Place.after p)) else .yield none) fuel l none)
      = some (Place.after e.key) := by
  induction xs generalizing l fuel with
  | nil =>
      obtain ⟨rfl, n, hn, -, hrest⟩ := segment_cons_iff.1 h
      have hnext : linksTo n k = true := by
        rw [linksTo, segment_nil_iff.1 hrest]
        simp
      cases fuel with
      | zero => cases hfuel
      | succ fuel => simp [forLinks, hn, hnext]
  | cons x xs ih =>
      obtain ⟨rfl, n, hn, -, hrest⟩ := segment_cons_iff.1 h
      have hnext : linksTo n k = false := by
        have hhead : ∃ k', n.next = some k' ∧ k' ∈ keysOf (xs ++ [e]) := by
          cases xs with
          | nil => exact ⟨_, (segment_cons_iff.1 hrest).1, by simp⟩
          | cons y ys => exact ⟨_, (segment_cons_iff.1 hrest).1, by simp⟩
        obtain ⟨k', hk', hmem⟩ := hhead
        have hne : k' ≠ k := fun heq => hk (List.mem_cons_of_mem _ (heq ▸ hmem))
        rw [linksTo, hk']
        simpa using hne
      cases fuel with
      | zero => cases hfuel
      | succ fuel =>
          have hrun := ih hrest (fun hmem => hk (List.mem_cons_of_mem _ hmem))
            (Nat.lt_of_succ_lt_succ hfuel)
          simpa [forLinks, hn, hnext] using hrun

theorem Arranged.placeOf?_eq (h : c.Arranged rows) {i : Nat} {xs ys : List (Element V)}
    {e : Element V} (hrow : rows i = xs ++ e :: ys) :
    c.placeOf? e.key = some (placeAfter i xs) := by
  have he : e ∈ rows i := by simp [hrow]
  obtain ⟨n, hn, -, hh⟩ := h.get? he
  have hhome : c.buckets.home n.hash = i := by
    rw [hh]
    exact h.home i e he
  have hchain := h.linked i
  have hnodup := h.nodup i
  have hlen := (h.linked i).length_le
  rw [hrow] at hchain hnodup hlen
  obtain ⟨m, hxs, hrest⟩ := segment_append.1 hchain
  obtain ⟨rfl, -⟩ := segment_cons_iff.1 hrest
  rw [placeOf?, hn]
  simp only [hhome]
  rcases List.eq_nil_or_concat xs with rfl | ⟨xs, p, rfl⟩
  · rw [segment_nil_iff.1 hxs, if_pos rfl, placeAfter_nil]
  · rw [List.concat_eq_append] at hxs hnodup hlen ⊢
    have hnot : e.key ∉ keysOf (xs ++ [p]) := by
      intro hmem
      rw [keysOf, List.map_append, List.nodup_append] at hnodup
      exact hnodup.2.2 _ hmem _ (by simp) rfl
    have hhead : c.buckets.head i ≠ some e.key := by
      intro heq
      rw [heq] at hxs
      cases xs with
      | nil => exact hnot (by rw [Option.some.inj (segment_cons_iff.1 hxs).1]; simp)
      | cons x xs => exact hnot (by rw [Option.some.inj (segment_cons_iff.1 hxs).1]; simp)
    rw [if_neg hhead, placeAfter_concat]
    refine forLinks_linksTo hxs hnot ?_
    simp only [List.length_append, List.length_cons, List.length_nil] at hlen
    omega

/-- Unlinking a node at its place and deleting it leaves the elements around it. -/
theorem Arranged.bypass_delete (h : c.Arranged rows) {i : Nat} {xs ys : List (Element V)}
    {e : Element V} (hrow : rows i = xs ++ e :: ys) :
    ((c.bypass (placeAfter i xs) e.key).delete e.key).2.Arranged
      (Function.update rows i (xs ++ ys)) := by
  have he : e ∈ rows i := by simp [hrow]
  have hi : i < c.bucketCount := h.lt_of_mem he
  have hchain := h.linked i
  have hnodup := h.nodup i
  rw [hrow] at hchain hnodup
  obtain ⟨m, hxs, hrest⟩ := segment_append.1 hchain
  obtain ⟨rfl, n, hn, -, hys⟩ := segment_cons_iff.1 hrest
  have hnext : c.linkAt (.after e.key) = n.next := by rw [linkAt, hn]; rfl
  have hmem : ∀ x ∈ xs, x ∈ rows i := fun x hx => hrow ▸ List.mem_append_left _ hx
  simp only [keysOf, List.map_append, List.map_cons, List.nodup_append, List.nodup_cons,
    List.mem_cons] at hnodup
  obtain ⟨-, ⟨hys', -⟩, hdisj⟩ := hnodup
  have hxs' : e.key ∉ keysOf xs := fun hx => hdisj _ hx _ (Or.inl rfl) rfl
  have hrows : ∀ j x, x ∈ Function.update rows i (xs ++ ys) j ↔ x ∈ rows j ∧ x.key ≠ e.key := by
    intro j x
    by_cases hj : j = i
    · subst hj
      rw [Function.update_self, hrow]
      simp only [List.mem_append, List.mem_cons]
      constructor
      · rintro (hx | hx)
        · exact ⟨Or.inl hx, fun heq => hxs' (heq ▸ List.mem_map_of_mem hx)⟩
        · exact ⟨Or.inr (Or.inr hx), fun heq => hys' (heq ▸ List.mem_map_of_mem hx)⟩
      · rintro ⟨hx | rfl | hx, hne⟩
        · exact Or.inl hx
        · exact absurd rfl hne
        · exact Or.inr hx
    · rw [Function.update_of_ne hj]
      refine ⟨fun hx => ⟨hx, fun heq => hj (h.eq_of_key hx he heq).2⟩, And.left⟩
  refine arranged_of_mem_iff ?_ (fun j => ?_) fun j x => ?_
  · rw [bucketCount_delete, bypass, bucketCount_setLink]
    exact h.buckets_pos
  · have hnew := linked_setLink h.linked hi hrow (hnext ▸ hys)
      (fun x hx hx' => hdisj _ (List.mem_map_of_mem hx) _ (Or.inr hx') rfl)
      (fun j hj x hx => h.not_mem_of_ne (Ne.symm hj) (hmem x hx)) j
    refine hnew.remove ?_
    intro hx
    obtain ⟨x, hx, hkey⟩ := List.mem_map.1 hx
    exact ((hrows j x).1 hx).2 hkey
  · rw [hrows, element?_delete, bypass, element?_setLink, h.mem_iff]
    show _ ↔ _ ∧ (c.setLink _ _).buckets.home x.hash = j
    rw [home_setLink]
    by_cases hk : x.key = e.key
    · simp [hk]
    · simp [hk]

/-- The chains without the node that `k` names. -/
def without (c : Chains V) (k : ArenaKey) : Chains V :=
  match c.placeOf? k with
  | none => c
  | some p => ((c.bypass p k).delete k).2

theorem Arranged.exists_split (h : c.Arranged rows) {k : ArenaKey} {e : Element V}
    (he : c.element? k = some e) :
    ∃ i xs ys, e.key = k ∧ rows i = xs ++ e :: ys := by
  obtain rfl := key_of_element? he
  obtain ⟨xs, ys, hrow⟩ := List.append_of_mem (h.mem_iff.2 ⟨he, rfl⟩)
  exact ⟨_, xs, ys, rfl, hrow⟩

/-- The place of a live node is found, and unlinking the node there hands back its value. -/
theorem Arranged.exists_place (h : c.Arranged rows) {k : ArenaKey} {e : Element V}
    (he : c.element? k = some e) :
    ∃ p, c.placeOf? k = some p ∧ ((c.bypass p k).delete k) = (some e.value, c.without k) := by
  obtain ⟨i, xs, ys, rfl, hrow⟩ := h.exists_split he
  have hplace := h.placeOf?_eq hrow
  refine ⟨_, hplace, Prod.ext ?_ ?_⟩
  · rw [delete_fst, bypass, element?_setLink, he]
    rfl
  · rw [without, hplace]

theorem placeOf?_eq_none {k : ArenaKey} (hk : c.element? k = none) : c.placeOf? k = none := by
  rw [placeOf?, Option.map_eq_none_iff.1 hk]

/-- Of elements of different keys those without a key of `ms` are the ones around `ms`. -/
theorem filter_key_notMem {xs ms ys : List (Element V)}
    (hnodup : (keysOf (xs ++ (ms ++ ys))).Nodup) :
    (xs ++ (ms ++ ys)).filter (fun x => x.key ∉ keysOf ms) = xs ++ ys := by
  simp only [keysOf, List.map_append, List.nodup_append, List.mem_append] at hnodup
  obtain ⟨-, ⟨-, -, hys⟩, hxs⟩ := hnodup
  have hkeep : xs.filter (fun x => x.key ∉ keysOf ms) = xs :=
    List.filter_eq_self.2 fun x hx => by
      have hx' : x.key ∈ keysOf xs := List.mem_map_of_mem hx
      simpa using fun m hm heq => hxs _ hx' _ (Or.inl (List.mem_map_of_mem hm)) heq.symm
  have hdrop : ms.filter (fun x => x.key ∉ keysOf ms) = [] :=
    List.filter_eq_nil_iff.2 fun x hx => by simpa using ⟨x, hx, rfl⟩
  have hkeep' : ys.filter (fun x => x.key ∉ keysOf ms) = ys :=
    List.filter_eq_self.2 fun y hy => by
      simpa using fun m hm heq => hys _ (List.mem_map_of_mem hm) _ (List.mem_map_of_mem hy) heq
  rw [List.filter_append, List.filter_append, hkeep, hdrop, hkeep', List.nil_append]

theorem filter_key_ne {xs ys : List (Element V)} {e : Element V}
    (hnodup : (keysOf (xs ++ e :: ys)).Nodup) :
    (xs ++ e :: ys).filter (fun x => x.key ≠ e.key) = xs ++ ys := by
  have hfilter := filter_key_notMem (show (keysOf (xs ++ ([e] ++ ys))).Nodup from hnodup)
  simpa using hfilter

/-- Without a node the chains hold all other elements, in their order. -/
theorem Arranged.without (h : c.Arranged rows) (k : ArenaKey) :
    (c.without k).Arranged fun i => (rows i).filter fun e => e.key ≠ k := by
  cases he : c.element? k with
  | none =>
      rw [Chains.without, placeOf?_eq_none he]
      have hall : ∀ i, (rows i).filter (fun e => e.key ≠ k) = rows i := fun i =>
        List.filter_eq_self.2 fun x hx => by
          simpa using fun heq : x.key = k =>
            h.not_mem_of_none (Option.map_eq_none_iff.1 he) i (heq ▸ List.mem_map_of_mem hx)
      simpa only [hall] using h
  | some e =>
      obtain ⟨i, xs, ys, rfl, hrow⟩ := h.exists_split he
      rw [Chains.without, h.placeOf?_eq hrow]
      convert h.bypass_delete hrow using 1
      funext j
      by_cases hj : j = i
      · subst hj
        have hnodup := h.nodup j
        rw [hrow] at hnodup
        rw [Function.update_self, hrow, filter_key_ne hnodup]
      · rw [Function.update_of_ne hj]
        refine List.filter_eq_self.2 ?_
        intro x hx
        have hmem : e ∈ rows i := by simp [hrow]
        simpa using fun heq : x.key = e.key => hj (h.eq_of_key hx hmem heq).2

theorem Arranged.element?_without (h : c.Arranged rows) (k j : ArenaKey) :
    (c.without k).element? j = if j = k then none else c.element? j := by
  cases he : c.element? k with
  | none =>
      rw [Chains.without, placeOf?_eq_none he]
      by_cases hj : j = k
      · rw [if_pos hj, hj, he]
      · rw [if_neg hj]
  | some e =>
      obtain ⟨p, hp, -⟩ := h.exists_place he
      rw [Chains.without, hp]
      show ((c.bypass p k).delete k).2.element? j = _
      rw [element?_delete, bypass, element?_setLink]

@[simp] theorem bucketCount_without (k : ArenaKey) : (c.without k).bucketCount = c.bucketCount := by
  rw [without]
  cases c.placeOf? k with
  | none => rfl
  | some p => exact bucketCount_setLink ..

/-- Taking a node out leaves the links of the nodes after it. -/
theorem Arranged.segment_without (h : c.Arranged rows) {i : Nat} {xs ys : List (Element V)}
    {e : Element V} (hrow : rows i = xs ++ e :: ys) {l : Link}
    (hl : Segment c.nodes l ys none) : Segment (c.without e.key).nodes l ys none := by
  have hnodup := h.nodup i
  rw [hrow] at hnodup
  simp only [keysOf, List.map_append, List.map_cons, List.nodup_append, List.nodup_cons,
    List.mem_cons] at hnodup
  obtain ⟨-, ⟨he, -⟩, hdisj⟩ := hnodup
  rw [Chains.without, h.placeOf?_eq hrow]
  show Segment ((c.bypass (placeAfter i xs) e.key).nodes.remove e.key).2 l ys none
  refine Segment.remove ?_ he
  rcases List.eq_nil_or_concat xs with rfl | ⟨xs, x, rfl⟩
  · exact hl
  · rw [List.concat_eq_append] at hdisj ⊢
    rw [placeAfter_concat]
    exact hl.modify (fun hx => hdisj x.key (by simp) _ (Or.inr hx) rfl) _

theorem Arranged.get?_without_head (h : c.Arranged rows) {i : Nat} {ys : List (Element V)}
    {e : Element V} (hrow : rows i = e :: ys) {k : ArenaKey} (hk : k ≠ e.key) :
    (c.without e.key).nodes.get? k = c.nodes.get? k := by
  have hplace : c.placeOf? e.key = some (.head i) :=
    h.placeOf?_eq (show rows i = [] ++ e :: ys from hrow)
  rw [Chains.without, hplace]
  exact Arena.get?_remove_ne _ hk

/-! ## Taking out several nodes -/

/-- The chains without the nodes that `ks` name. -/
def withoutAll (c : Chains V) (ks : List ArenaKey) : Chains V := ks.foldl without c

theorem Arranged.withoutAll (h : c.Arranged rows) (ks : List ArenaKey) :
    (c.withoutAll ks).Arranged fun i => (rows i).filter fun e => e.key ∉ ks := by
  induction ks generalizing c rows with
  | nil =>
      have hall : ∀ i, (rows i).filter (fun e => e.key ∉ ([] : List ArenaKey)) = rows i :=
        fun i => List.filter_eq_self.2 fun e _ => by simp
      simp only [hall]
      exact h
  | cons k ks ih =>
      have hrest := ih (h.without k)
      have hfilter : ∀ i, ((rows i).filter fun e => e.key ≠ k).filter (fun e => e.key ∉ ks)
          = (rows i).filter fun e => e.key ∉ k :: ks := by
        intro i
        rw [List.filter_filter]
        refine List.filter_congr ?_
        intro e _
        simp only [List.mem_cons, not_or, ne_eq, Bool.decide_and]
        exact Bool.and_comm ..
      simp only [hfilter] at hrest
      exact hrest

theorem Arranged.element?_withoutAll (h : c.Arranged rows) (ks : List ArenaKey) (j : ArenaKey) :
    (c.withoutAll ks).element? j = if j ∈ ks then none else c.element? j := by
  induction ks generalizing c rows with
  | nil => simp [Chains.withoutAll]
  | cons k ks ih =>
      show ((c.without k).withoutAll ks).element? j = _
      rw [ih (h.without k), h.element?_without]
      by_cases hj : j = k
      · simp [hj]
      · simp [hj]

@[simp] theorem bucketCount_withoutAll (ks : List ArenaKey) :
    (c.withoutAll ks).bucketCount = c.bucketCount := by
  induction ks generalizing c with
  | nil => rfl
  | cons k ks ih => exact ih.trans (bucketCount_without k)

theorem Arranged.elements_withoutAll (h : c.Arranged rows) (ks : List ArenaKey) :
    (c.withoutAll ks).elements = c.elements.filter fun e => e.key ∉ ks := by
  rw [(h.withoutAll ks).elements_eq, h.elements_eq, bucketCount_withoutAll, List.filter_flatMap]

/-! ## Sizes -/

@[simp] theorem size_setLink (p : Place) (l : Link) : (c.setLink p l).size = c.size := by
  cases p with
  | head i => rfl
  | after k => exact Arena.size_modify ..

theorem size_insertAt (p : Place) (v : V) (hash : UInt64) :
    (c.insertAt p v hash).2.size = c.size + 1 :=
  (size_setLink (c := ⟨(c.nodes.insert ⟨v, hash, c.linkAt p⟩).2, c.buckets⟩) p _).trans
    (Arena.size_insert ..)

theorem Arranged.size_without (h : c.Arranged rows) {k : ArenaKey} {e : Element V}
    (he : c.element? k = some e) : (c.without k).size + 1 = c.size := by
  obtain ⟨p, hp, -⟩ := h.exists_place he
  have hlive : (c.bypass p k).element? k = some e := by rw [bypass, element?_setLink, he]
  obtain ⟨n, hn, -⟩ := element?_eq_some.1 hlive
  rw [Chains.without, hp, ← size_setLink (c := c) p (c.linkAt (.after k))]
  exact Arena.size_remove hn

/-! ## Ageing -/

theorem follows_setLink (p : Place) (l : Link) : c.nodes.Follows (c.setLink p l).nodes := by
  cases p with
  | head i => exact .refl _
  | after k => exact Arena.follows_modify ..

theorem follows_insertAt (p : Place) (v : V) (hash : UInt64) :
    c.nodes.Follows (c.insertAt p v hash).2.nodes :=
  (Arena.follows_insert c.nodes ⟨v, hash, c.linkAt p⟩).trans
    (follows_setLink (c := ⟨(c.nodes.insert ⟨v, hash, c.linkAt p⟩).2, c.buckets⟩) p _)

theorem follows_without (k : ArenaKey) : c.nodes.Follows (c.without k).nodes := by
  rw [without]
  cases c.placeOf? k with
  | none => exact .refl _
  | some p => exact (follows_setLink p _).trans (Arena.follows_remove ..)

end SeparateChaining.Chains
