import SeparateChaining.Proofs.Table.Check

/-!
# Inspecting any chains

The chains of a table that was damaged may lead anywhere: in a circle,
into one another, past a node that is live, or to a node that is not. A
walk along such a chain may never end. `visit` follows it without a
bound, position by position, and says what is there, if the walk gets
so far.

The check that nodes are well placed reads its chains off walks that
are cut short. `wellPlaced_iff` says what it finds out of the walks that
are not: every live node is at one position of one chain, that of its
home bucket. That it needs no more than the cut walks is because a walk
that repeats no node is never cut.

`inspect` is one step of the check made without any bound, which only
remembers what it has seen. It ends all the same, and with the same
verdict (`ends_inspection`): each node that it passes is a live one that
it has not seen before, and of those there are only so many.
-/

namespace SeparateChaining.Chains

variable {V : Type} {c : Chains V} {nodes : Arena (Node V)}

/-! ## Walks without a bound -/

/-- The node that a walk from a link on meets after `j` others. The walk ends at an empty link, or
at one that leads to no live node. -/
def met (nodes : Arena (Node V)) : Link → Nat → Option (Cell V)
  | none, _ => none
  | some k, 0 => (nodes.get? k).map (k, ·)
  | some k, j + 1 => (nodes.get? k).bind fun n => met nodes n.next j

/-- The node at position `j` of the chain of bucket `i`. -/
def visit (c : Chains V) (i j : Nat) : Option (Cell V) := met c.nodes (c.buckets.head i) j

@[simp] theorem met_none (nodes : Arena (Node V)) (j : Nat) : met nodes none j = none := by
  cases j <;> rfl

theorem met_of_live {k : ArenaKey} {n : Node V} (h : nodes.get? k = some n) (j : Nat) :
    met nodes (some k) j = if j = 0 then some (k, n) else met nodes n.next (j - 1) := by
  cases j with
  | zero => rw [met, h, Option.map_some, if_pos rfl]
  | succ j => rw [met, h, Option.bind_some, if_neg (Nat.succ_ne_zero j), Nat.add_sub_cancel]

theorem met_of_dead {k : ArenaKey} (h : nodes.get? k = none) (j : Nat) :
    met nodes (some k) j = none := by
  cases j with
  | zero => rw [met, h, Option.map_none]
  | succ j => rw [met, h, Option.bind_none]

theorem get?_of_met {l : Link} {j : Nat} {k : ArenaKey} {n : Node V}
    (h : met nodes l j = some (k, n)) : nodes.get? k = some n := by
  fun_induction met nodes l j with
  | case1 => cases h
  | case2 k' =>
      obtain ⟨n', hn', heq⟩ := Option.map_eq_some_iff.1 h
      obtain ⟨rfl, rfl⟩ := Prod.mk.inj heq
      exact hn'
  | case3 k' j ih =>
      obtain ⟨n', -, hrest⟩ := Option.bind_eq_some_iff.1 h
      exact ih n' hrest

/-- A walk that has ended meets nothing more. -/
theorem met_eq_none_of_le {l : Link} {i j : Nat} (hij : i ≤ j) (h : met nodes l i = none) :
    met nodes l j = none := by
  induction i generalizing l j with
  | zero =>
      cases l with
      | none => exact met_none nodes j
      | some k => exact met_of_dead (Option.map_eq_none_iff.1 h) j
  | succ i ih =>
      cases l with
      | none => exact met_none nodes j
      | some k =>
          cases hk : nodes.get? k with
          | none => exact met_of_dead hk j
          | some n =>
              rw [met_of_live hk, if_neg (Nat.succ_ne_zero i), Nat.add_sub_cancel] at h
              rw [met_of_live hk, if_neg (by omega)]
              exact ih (by omega) h

/-- A walk that is cut short reads what is met up to there. -/
theorem getElem?_follow {fuel j : Nat} {l : Link} (h : j < fuel) :
    (follow nodes fuel l)[j]? = met nodes l j := by
  fun_induction follow nodes fuel l generalizing j with
  | case1 => simp
  | case2 => cases h
  | case3 fuel k n hn ih =>
      rw [met_of_live hn]
      cases j with
      | zero => rfl
      | succ j =>
          rw [if_neg (Nat.succ_ne_zero j), Nat.add_sub_cancel, List.getElem?_cons_succ]
          exact ih (Nat.lt_of_succ_lt_succ h)
  | case4 fuel k hk => rw [met_of_dead hk, List.getElem?_nil]

theorem length_follow_le (nodes : Arena (Node V)) (fuel : Nat) (l : Link) :
    (follow nodes fuel l).length ≤ fuel := by
  fun_induction follow nodes fuel l with
  | case1 => exact Nat.zero_le _
  | case2 => exact Nat.le_refl 0
  | case3 fuel k n hn ih => exact Nat.succ_le_succ ih
  | case4 => exact Nat.zero_le _

/-! ## Chains that repeat no node -/

theorem lt_of_visit {i j : Nat} {cell : Cell V} (h : c.visit i j = some cell) :
    i < c.bucketCount := by
  refine Nat.lt_of_not_le fun hle => ?_
  have hhead : c.buckets.head i = none := by
    rw [Buckets.head, Array.getD_eq_getD_getElem?, Array.getElem?_eq_none hle, Option.getD_none]
  rw [visit, hhead, met_none] at h
  cases h

theorem visit_of_mem {i : Nat} {cell : Cell V} (h : cell ∈ c.chain i) :
    ∃ j, c.visit i j = some cell ∧ (c.chain i)[j]? = some cell := by
  obtain ⟨j, hj⟩ := List.mem_iff_getElem?.1 h
  obtain ⟨hlt, -⟩ := List.getElem?_eq_some_iff.1 hj
  have hfuel := Nat.lt_of_lt_of_le hlt (length_follow_le ..)
  exact ⟨j, (getElem?_follow hfuel).symm.trans hj, hj⟩

theorem live_of_mem_chain {i : Nat} {k : ArenaKey} (h : k ∈ (c.chain i).map (·.1)) :
    ∃ n, c.nodes.get? k = some n := by
  obtain ⟨cell, hcell, rfl⟩ := List.mem_map.1 h
  exact ⟨cell.2, get?_of_mem_follow hcell⟩

/-- A chain that repeats no node is not cut short: it is no longer than there are live nodes. -/
theorem chain_length_le {i : Nat} (h : ((c.chain i).map (·.1)).Nodup) :
    (c.chain i).length ≤ c.size := by
  rw [← List.length_map (·.1)]
  exact Arena.length_le_size h fun k hk => live_of_mem_chain hk

theorem visit_size {i : Nat} (h : ((c.chain i).map (·.1)).Nodup) : c.visit i c.size = none := by
  have hfuel : c.size < c.nodes.slots.size + 1 := Nat.lt_succ_of_le c.nodes.size_le_slots
  rw [visit, ← getElem?_follow hfuel]
  exact List.getElem?_eq_none (chain_length_le h)

theorem getElem?_chain {i : Nat} (h : ((c.chain i).map (·.1)).Nodup) (j : Nat) :
    (c.chain i)[j]? = c.visit i j := by
  rcases Nat.lt_or_ge j (c.nodes.slots.size + 1) with hj | hj
  · exact getElem?_follow hj
  · have hsize : c.size ≤ j := by
      have hle := c.nodes.size_le_slots
      show c.nodes.size ≤ j
      omega
    rw [List.getElem?_eq_none (Nat.le_trans (chain_length_le h) hsize)]
    exact (met_eq_none_of_le hsize (visit_size h)).symm

/-! ## Every live node at one position -/

/-- The walks along all chains visit every live node, at one position, and nodes only on the chain
of their home bucket. -/
structure VisitedOnce (c : Chains V) : Prop where
  once : ∀ k n, c.nodes.get? k = some n → ∃! p : Nat × Nat, c.visit p.1 p.2 = some (k, n)
  home : ∀ i j k n, c.visit i j = some (k, n) → i = c.buckets.home n.hash

theorem keys_traversal (c : Chains V) : c.traversal.map (·.1)
    = (List.range c.bucketCount).flatMap fun i => (c.chain i).map (·.1) :=
  List.map_flatMap ..

theorem getElem?_map_key {cells : List (Cell V)} {j : Nat} {k : ArenaKey} :
    (cells.map (·.1))[j]? = some k ↔ ∃ n, cells[j]? = some (k, n) := by
  rw [List.getElem?_map, Option.map_eq_some_iff]
  constructor
  · rintro ⟨cell, hcell, rfl⟩
    exact ⟨cell.2, hcell⟩
  · rintro ⟨n, hn⟩
    exact ⟨_, hn, rfl⟩

/-- Two positions of one key hold one node, so if each node is visited once they are the same. -/
theorem VisitedOnce.nodup_chain (h : c.VisitedOnce) (i : Nat) :
    ((c.chain i).map (·.1)).Nodup := by
  have hread : ∀ {j k}, ((c.chain i).map (·.1))[j]? = some k →
      ∃ n, c.nodes.get? k = some n ∧ c.visit i j = some (k, n) := by
    intro j k hj
    obtain ⟨n, hn⟩ := getElem?_map_key.1 hj
    obtain ⟨hlt, -⟩ := List.getElem?_eq_some_iff.1 hn
    have hvisit : c.visit i j = some (k, n) :=
      (getElem?_follow (Nat.lt_of_lt_of_le hlt (length_follow_le ..))).symm.trans hn
    exact ⟨n, get?_of_met hvisit, hvisit⟩
  rw [List.nodup_iff_getElem?_ne_getElem?]
  intro j j' hjj' hj' hsame
  obtain ⟨k, hk'⟩ : ∃ k, ((c.chain i).map (·.1))[j']? = some k :=
    ⟨_, List.getElem?_eq_getElem hj'⟩
  obtain ⟨n, hn, hvisit⟩ := hread (hsame.trans hk')
  obtain ⟨n', hn', hvisit'⟩ := hread hk'
  obtain rfl := Option.some.inj (hn.symm.trans hn')
  obtain ⟨p, -, honly⟩ := h.once k n hn
  have hpair : (i, j) = (i, j') := (honly (i, j) hvisit).trans (honly (i, j') hvisit').symm
  exact Nat.ne_of_lt hjj' (Prod.mk.inj hpair).2

theorem wellPlaced_eq_true_iff : c.wellPlaced = true
    ↔ (∀ i < c.bucketCount, ∀ cell ∈ c.chain i, c.buckets.home cell.2.hash = i)
      ∧ (c.traversal.map (·.1)).Nodup ∧ c.traversal.length = c.size := by
  simp only [wellPlaced, isHomeChain, keysDistinct, Bool.and_eq_true, List.all_eq_true,
    List.mem_range, decide_eq_true_eq, keysDistinctFrom_iff, Std.HashSet.not_mem_empty,
    not_false_eq_true, implies_true, and_true, beq_iff_eq, and_assoc]

theorem visitedOnce_of_wellPlaced (h : c.wellPlaced = true) : c.VisitedOnce := by
  rw [wellPlaced_eq_true_iff] at h
  obtain ⟨hhome, hnodup, hlength⟩ := h
  have hlive : ∀ k ∈ c.traversal.map (·.1), ∃ n, c.nodes.get? k = some n := by
    rw [keys_traversal]
    intro k hk
    obtain ⟨i, -, hi⟩ := List.mem_flatMap.1 hk
    exact live_of_mem_chain hi
  have hall : ∀ {k n}, c.nodes.get? k = some n → k ∈ c.traversal.map (·.1) :=
    Arena.mem_of_length_eq hnodup hlive ((List.length_map _).trans hlength)
  rw [keys_traversal] at hnodup hall
  have hchains := (List.nodup_flatMap.1 hnodup).1
  have hread : ∀ {i j cell}, c.visit i j = some cell →
      i < c.bucketCount ∧ (c.chain i)[j]? = some cell := by
    intro i j cell hvisit
    have hi := lt_of_visit hvisit
    exact ⟨hi, (getElem?_chain (hchains i (List.mem_range.2 hi)) j).trans hvisit⟩
  have hplace : ∀ i j k n, c.visit i j = some (k, n) → i = c.buckets.home n.hash := by
    intro i j k n hvisit
    obtain ⟨hi, hj⟩ := hread hvisit
    exact (hhome i hi _ (List.mem_of_getElem? hj)).symm
  refine ⟨fun k n hn => ?_, hplace⟩
  obtain ⟨i, hi, hk⟩ := List.mem_flatMap.1 (hall hn)
  obtain ⟨cell, hcell, rfl⟩ := List.mem_map.1 hk
  obtain ⟨j, hvisit, hj⟩ := visit_of_mem hcell
  obtain rfl : cell.2 = n := Option.some.inj ((get?_of_mem_follow hcell).symm.trans hn)
  refine ⟨(i, j), hvisit, ?_⟩
  rintro ⟨i', j'⟩ hvisit'
  obtain ⟨-, hj'⟩ := hread hvisit'
  obtain rfl : i' = i := (hplace _ _ _ _ hvisit').trans (hplace _ _ _ _ hvisit).symm
  have hkey : ((c.chain i').map (·.1))[j']? = ((c.chain i').map (·.1))[j]? := by
    rw [List.getElem?_map, List.getElem?_map, hj', hj]
  have hlt : j' < ((c.chain i').map (·.1)).length := by
    rw [List.length_map]
    exact (List.getElem?_eq_some_iff.1 hj').1
  rw [(List.getElem?_inj hlt (hchains i' hi)).1 hkey]

theorem VisitedOnce.wellPlaced (h : c.VisitedOnce) : c.wellPlaced = true := by
  have hhome : ∀ i, ∀ cell ∈ c.chain i, c.buckets.home cell.2.hash = i := by
    intro i cell hcell
    obtain ⟨j, hvisit, -⟩ := visit_of_mem hcell
    exact (h.home i j cell.1 cell.2 hvisit).symm
  have hdisjoint : ∀ {i j}, i ≠ j →
      List.Disjoint ((c.chain i).map (·.1)) ((c.chain j).map (·.1)) := by
    intro i j hij
    rw [List.disjoint_left]
    intro k hk hk'
    obtain ⟨cell, hcell, rfl⟩ := List.mem_map.1 hk
    obtain ⟨cell', hcell', hkey⟩ := List.mem_map.1 hk'
    have hnode : cell'.2 = cell.2 := Option.some.inj
      ((get?_of_mem_follow hcell').symm.trans (hkey ▸ get?_of_mem_follow hcell))
    exact hij ((hhome i cell hcell).symm.trans (hnode ▸ hhome j cell' hcell'))
  have hnodup : ((List.range c.bucketCount).flatMap fun i => (c.chain i).map (·.1)).Nodup :=
    List.nodup_flatMap.2 ⟨fun i _ => h.nodup_chain i, List.nodup_range.imp hdisjoint⟩
  rw [← keys_traversal] at hnodup
  refine wellPlaced_eq_true_iff.2 ⟨fun i _ => hhome i, hnodup, ?_⟩
  rw [← List.length_map (·.1)]
  refine (Arena.size_eq_length hnodup fun k => ?_).symm
  rw [keys_traversal, List.mem_flatMap]
  constructor
  · rintro ⟨i, -, hk⟩
    exact live_of_mem_chain hk
  · rintro ⟨n, hn⟩
    obtain ⟨p, hvisit, -⟩ := h.once k n hn
    have hj := (getElem?_chain (h.nodup_chain p.1) p.2).trans hvisit
    exact ⟨p.1, List.mem_range.2 (lt_of_visit hvisit),
      List.mem_map.2 ⟨_, List.mem_of_getElem? hj, rfl⟩⟩

/-- The check reads off the walks that it cuts short whether every live node is visited once and at
home by those that are not. -/
theorem wellPlaced_iff : c.wellPlaced = true ↔ c.VisitedOnce :=
  ⟨visitedOnce_of_wellPlaced, VisitedOnce.wellPlaced⟩

/-! ## The check as a loop -/

/-- Where an inspection stands: on the chain of a bucket, before a link, with buckets still ahead
and the keys that it has seen. -/
structure Inspection where
  bucket : Nat
  link : Link
  ahead : List Nat
  seen : List ArenaKey

/-- Before the first bucket. -/
def inspection (c : Chains V) : Inspection := ⟨0, none, List.range c.bucketCount, []⟩

/-- One step of the inspection. A node that does not belong on the chain, or was seen before, ends
it. At the end of a chain it goes on to the next bucket, and after the last it has seen all live
nodes or not. -/
def inspect (c : Chains V) (s : Inspection) : Bool ⊕ Inspection :=
  match met c.nodes s.link 0 with
  | some (k, n) =>
    if c.buckets.home n.hash = s.bucket ∧ k ∉ s.seen then
      .inr { s with link := n.next, seen := k :: s.seen }
    else .inl false
  | none =>
    match s.ahead with
    | i :: is => .inr { s with bucket := i, link := c.buckets.head i, ahead := is }
    | [] => .inl (s.seen.length == c.size)

/-- The inspection ends with a verdict, after so many steps. -/
inductive Ends (c : Chains V) : Inspection → Nat → Bool → Prop
  | now {s : Inspection} {verdict : Bool} (step : c.inspect s = .inl verdict) : Ends c s 1 verdict
  | later {s s' : Inspection} {n : Nat} {verdict : Bool} (step : c.inspect s = .inr s')
      (rest : Ends c s' n verdict) : Ends c s (n + 1) verdict

/-- What the inspection has yet to see is as it should be, if `cells` are the rest of the chain. -/
structure Passes (c : Chains V) (s : Inspection) (cells : List (Cell V)) : Prop where
  here : ∀ cell ∈ cells, c.buckets.home cell.2.hash = s.bucket
  ahead : ∀ i ∈ s.ahead, ∀ cell ∈ c.chain i, c.buckets.home cell.2.hash = i
  nodup : ((cells ++ s.ahead.flatMap c.chain).map (·.1)).Nodup
  unseen : ∀ k ∈ (cells ++ s.ahead.flatMap c.chain).map (·.1), k ∉ s.seen
  all : s.seen.length + (cells ++ s.ahead.flatMap c.chain).length = c.size

theorem follow_of_met_none {l : Link} (h : met nodes l 0 = none) (fuel : Nat) :
    follow nodes fuel l = [] := by
  cases l with
  | none => exact follow_none nodes fuel
  | some k =>
      cases fuel with
      | zero => rfl
      | succ fuel => rw [follow, Option.map_eq_none_iff.1 h]

theorem link_of_met {l : Link} {k : ArenaKey} {n : Node V} (h : met nodes l 0 = some (k, n)) :
    l = some k := by
  cases l with
  | none => cases h
  | some k' =>
      obtain ⟨n', -, heq⟩ := Option.map_eq_some_iff.1 h
      rw [(Prod.mk.inj heq).1]

/-- The inspection ends within `m` steps, and its verdict is whether what it has yet to see is as it
should be. -/
def Decides (c : Chains V) (s : Inspection) (cells : List (Cell V)) (m : Nat) : Prop :=
  ∃ n verdict, n ≤ m ∧ c.Ends s n verdict ∧ (verdict = true ↔ c.Passes s cells)

variable {s : Inspection} {k : ArenaKey} {n : Node V} {cells : List (Cell V)} {m : Nat}

theorem Decides.mono {m' : Nat} (h : c.Decides s cells m) (hm : m ≤ m') :
    c.Decides s cells m' := by
  obtain ⟨n, verdict, hn, hends, hverdict⟩ := h
  exact ⟨n, verdict, Nat.le_trans hn hm, hends, hverdict⟩

/-- At a node that belongs on the chain and is new. -/
theorem Decides.node (hmet : met c.nodes s.link 0 = some (k, n))
    (hhome : c.buckets.home n.hash = s.bucket) (hk : k ∉ s.seen)
    (h : c.Decides { s with link := n.next, seen := k :: s.seen } cells m) :
    c.Decides s ((k, n) :: cells) (m + 1) := by
  obtain ⟨steps, verdict, hsteps, hends, hverdict⟩ := h
  have hstep : c.inspect s = .inr { s with link := n.next, seen := k :: s.seen } := by
    rw [inspect, hmet]
    exact if_pos ⟨hhome, hk⟩
  refine ⟨steps + 1, verdict, Nat.succ_le_succ hsteps, .later hstep hends, hverdict.trans ?_⟩
  constructor
  · rintro ⟨hhere, hahead, hnodup, hunseen, hall⟩
    refine ⟨List.forall_mem_cons.2 ⟨hhome, hhere⟩, hahead, ?_, ?_, ?_⟩
    · exact List.nodup_cons.2 ⟨fun hmem => hunseen k hmem (List.mem_cons_self ..), hnodup⟩
    · exact List.forall_mem_cons.2
        ⟨hk, fun k' hk' hmem => hunseen k' hk' (List.mem_cons_of_mem k hmem)⟩
    · rw [← hall]
      simp only [List.length_append, List.length_cons]
      omega
  · rintro ⟨hhere, hahead, hnodup, hunseen, hall⟩
    obtain ⟨hfresh, hnodup⟩ := List.nodup_cons.1 hnodup
    refine ⟨(List.forall_mem_cons.1 hhere).2, hahead, hnodup, fun k' hk' => ?_, ?_⟩
    · rintro (_ | ⟨_, hmem⟩)
      · exact hfresh hk'
      · exact hunseen k' (List.mem_cons_of_mem k hk') hmem
    · rw [← hall]
      simp only [List.length_append, List.length_cons]
      omega

/-- At a node that belongs elsewhere or comes again. -/
theorem decides_stray (hmet : met c.nodes s.link 0 = some (k, n))
    (hstray : ¬ (c.buckets.home n.hash = s.bucket ∧ k ∉ s.seen)) :
    c.Decides s ((k, n) :: cells) 1 := by
  have hstep : c.inspect s = .inl false := by
    rw [inspect, hmet]
    exact if_neg hstray
  refine ⟨1, false, Nat.le_refl 1, .now hstep, ?_⟩
  constructor
  · intro h
    cases h
  · intro h
    exact absurd ⟨h.here _ (List.mem_cons_self ..), h.unseen k (List.mem_cons_self ..)⟩ hstray

/-- At the end of a chain, with a bucket ahead. -/
theorem Decides.bucket {i : Nat} {is : List Nat} (hmet : met c.nodes s.link 0 = none)
    (hahead : s.ahead = i :: is)
    (h : c.Decides { s with bucket := i, link := c.buckets.head i, ahead := is } (c.chain i) m) :
    c.Decides s [] (m + 1) := by
  obtain ⟨steps, verdict, hsteps, hends, hverdict⟩ := h
  have hstep : c.inspect s
      = .inr { s with bucket := i, link := c.buckets.head i, ahead := is } := by
    rw [inspect, hmet, hahead]
  refine ⟨steps + 1, verdict, Nat.succ_le_succ hsteps, .later hstep hends, hverdict.trans ?_⟩
  have hrest : ([] : List (Cell V)) ++ s.ahead.flatMap c.chain
      = c.chain i ++ is.flatMap c.chain := by
    rw [hahead, List.flatMap_cons, List.nil_append]
  constructor
  · rintro ⟨hhere, hnext, hnodup, hunseen, hall⟩
    refine ⟨fun _ hcell => absurd hcell List.not_mem_nil, ?_, ?_, ?_, ?_⟩
    · rw [hahead]
      exact List.forall_mem_cons.2 ⟨hhere, hnext⟩
    · rwa [hrest]
    · rwa [hrest]
    · rwa [hrest]
  · rintro ⟨-, hnext, hnodup, hunseen, hall⟩
    rw [hahead] at hnext
    rw [hrest] at hnodup hunseen hall
    exact ⟨(List.forall_mem_cons.1 hnext).1, (List.forall_mem_cons.1 hnext).2, hnodup, hunseen,
      hall⟩

/-- At the end of the last chain. -/
theorem decides_last (hmet : met c.nodes s.link 0 = none) (hahead : s.ahead = []) :
    c.Decides s [] 1 := by
  have hstep : c.inspect s = .inl (s.seen.length == c.size) := by
    rw [inspect, hmet, hahead]
  have hrest : ([] : List (Cell V)) ++ s.ahead.flatMap c.chain = [] := by
    rw [hahead, List.flatMap_nil, List.append_nil]
  refine ⟨1, _, Nat.le_refl 1, .now hstep, ?_⟩
  rw [beq_iff_eq]
  constructor
  · intro hall
    refine ⟨fun _ hcell => absurd hcell List.not_mem_nil, fun i hi => ?_, ?_, ?_, ?_⟩
    · rw [hahead] at hi
      exact absurd hi List.not_mem_nil
    · rw [hrest]
      exact List.nodup_nil
    · rw [hrest]
      exact fun k hk => absurd hk List.not_mem_nil
    · rwa [hrest]
  · intro h
    have hall := h.all
    rwa [hrest] at hall

/-- By induction on the live nodes not yet seen and the buckets ahead. With the nodes seen the fuel
that the walk along the current chain still has reaches beyond all live nodes, so the walk is not
cut before a node comes again. -/
theorem decides (m : Nat) (s : Inspection) (fuel : Nat)
    (hm : (c.size - s.seen.length) + s.ahead.length = m) (hnodup : s.seen.Nodup)
    (hlive : ∀ k ∈ s.seen, ∃ n, c.nodes.get? k = some n) (hfuel : c.size < fuel + s.seen.length) :
    c.Decides s (follow c.nodes fuel s.link) (m + 1) := by
  induction m using Nat.strongRecOn generalizing s fuel with
  | ind m ih =>
      cases hmet : met c.nodes s.link 0 with
      | none =>
          rw [follow_of_met_none hmet]
          cases hahead : s.ahead with
          | nil => exact (decides_last hmet hahead).mono (by omega)
          | cons i is =>
              rw [hahead, List.length_cons] at hm
              have hrest : c.size < c.nodes.slots.size + 1 + s.seen.length := by
                have hle : c.size ≤ c.nodes.slots.size := c.nodes.size_le_slots
                omega
              have hnext := ih (m - 1) (by omega)
                { s with bucket := i, link := c.buckets.head i, ahead := is } _
                (show c.size - s.seen.length + is.length = m - 1 by omega) hnodup hlive hrest
              exact (hnext.bucket hmet hahead).mono (by omega)
      | some cell =>
          obtain ⟨k, n⟩ := cell
          have hn := get?_of_met hmet
          have hle : s.seen.length ≤ c.size := Arena.length_le_size hnodup hlive
          obtain ⟨fuel, rfl⟩ : ∃ f, fuel = f + 1 := ⟨fuel - 1, by omega⟩
          rw [link_of_met hmet, follow, hn]
          by_cases hgood : c.buckets.home n.hash = s.bucket ∧ k ∉ s.seen
          · have hnodup' : (k :: s.seen).Nodup := List.nodup_cons.2 ⟨hgood.2, hnodup⟩
            have hlive' : ∀ k' ∈ k :: s.seen, ∃ n, c.nodes.get? k' = some n :=
              List.forall_mem_cons.2 ⟨⟨n, hn⟩, hlive⟩
            have hmore : s.seen.length + 1 ≤ c.size := Arena.length_le_size hnodup' hlive'
            have hrest := ih (m - 1) (by omega)
              { s with link := n.next, seen := k :: s.seen } fuel
              (show c.size - (s.seen.length + 1) + s.ahead.length = m - 1 by omega) hnodup' hlive'
              (show c.size < fuel + (s.seen.length + 1) by omega)
            exact (hrest.node hmet hgood.1 hgood.2).mono (by omega)
          · exact (decides_stray hmet hgood).mono (by omega)

/-- The inspection of any chains ends, after no more steps than there are live nodes and buckets,
and one. Its verdict is that of the check. -/
theorem ends_inspection (c : Chains V) :
    ∃ n, n ≤ c.size + c.bucketCount + 1 ∧ c.Ends c.inspection n c.wellPlaced := by
  have hdecides : c.Decides c.inspection (follow c.nodes (c.size + 1) none)
      (c.size + c.bucketCount + 1) := by
    refine decides _ c.inspection (c.size + 1) ?_ List.nodup_nil
      (fun k hk => absurd hk List.not_mem_nil) (Nat.lt_succ_self _)
    show c.size - 0 + (List.range c.bucketCount).length = _
    rw [List.length_range, Nat.sub_zero]
  obtain ⟨n, verdict, hn, hends, hverdict⟩ := hdecides
  have hsame : verdict = c.wellPlaced := by
    rw [Bool.eq_iff_iff, hverdict, wellPlaced_eq_true_iff, follow_none]
    constructor
    · rintro ⟨-, hahead, hnodup, -, hall⟩
      exact ⟨fun i hi => hahead i (List.mem_range.2 hi), hnodup, (Nat.zero_add _).symm.trans hall⟩
    · rintro ⟨hhome, hnodup, hlength⟩
      exact ⟨fun _ hcell => absurd hcell List.not_mem_nil,
        fun i hi => hhome i (List.mem_range.1 hi), hnodup, fun _ _ => List.not_mem_nil,
        (Nat.zero_add _).trans hlength⟩
  rw [← hsame]
  exact ⟨n, hn, hends⟩

end SeparateChaining.Chains
