import SeparateChaining.Chains.Place
import SeparateChaining.Proofs.Arena

/-!
# Segments of chains

The Prop layer over the walks along links. `Segment nodes l es m` says
that following links from `l` meets live nodes only, that they hold the
elements `es` in this order, and that the link after the last is `m`.
A segment that ends at the empty link is a whole chain: it repeats no
node (`Segment.nodup`), and the walk reads it off without being cut
short (`Segment.follow_eq`).

An `Element` is what a node holds apart from its link. Relinking
changes links only, so it moves elements from one segment to another
and leaves each as it is.
-/

namespace SeparateChaining

/-- What a node holds apart from its link, with the key that names the node. -/
structure Element (V : Type) where
  key : ArenaKey
  value : V
  hash : UInt64

namespace Element

variable {V : Type}

def ofCell (cell : Cell V) : Element V := ⟨cell.1, cell.2.value, cell.2.hash⟩

@[simp] theorem key_ofCell (cell : Cell V) : (ofCell cell).key = cell.1 := rfl

@[simp] theorem hash_ofCell (cell : Cell V) : (ofCell cell).hash = cell.2.hash := rfl

@[simp] theorem value_ofCell (cell : Cell V) : (ofCell cell).value = cell.2.value := rfl

end Element

namespace Chains

variable {V : Type} {nodes : Arena (Node V)}

/-- The nodes met from link `l` on, up to link `m`, are live and hold `es`. -/
inductive Segment (nodes : Arena (Node V)) : Link → List (Element V) → Link → Prop
  | nil (l : Link) : Segment nodes l [] l
  | cons {k : ArenaKey} {n : Node V} {es : List (Element V)} {m : Link}
      (found : nodes.get? k = some n) (rest : Segment nodes n.next es m) :
      Segment nodes (some k) (⟨k, n.value, n.hash⟩ :: es) m

/-- The keys of elements, in order. -/
abbrev keysOf (es : List (Element V)) : List ArenaKey := es.map (·.key)

theorem segment_nil_iff {l m : Link} : Segment nodes l [] m ↔ l = m := by
  constructor
  · intro h
    cases h
    rfl
  · rintro rfl
    exact .nil l

theorem segment_cons_iff {l m : Link} {e : Element V} {es : List (Element V)} :
    Segment nodes l (e :: es) m
      ↔ l = some e.key ∧ ∃ n, nodes.get? e.key = some n ∧ e = ⟨e.key, n.value, n.hash⟩
        ∧ Segment nodes n.next es m := by
  constructor
  · intro h
    cases h with
    | cons found rest => exact ⟨rfl, _, found, rfl, rest⟩
  · rintro ⟨rfl, n, hn, he, hrest⟩
    rw [he]
    exact .cons hn hrest

/-- A segment of two parts is a segment for each, joined at a link. -/
theorem segment_append {l m : Link} {xs ys : List (Element V)} :
    Segment nodes l (xs ++ ys) m ↔ ∃ j, Segment nodes l xs j ∧ Segment nodes j ys m := by
  induction xs generalizing l with
  | nil =>
      simp only [List.nil_append, segment_nil_iff]
      exact ⟨fun h => ⟨l, rfl, h⟩, fun ⟨_, hj, h⟩ => hj ▸ h⟩
  | cons e xs ih =>
      simp only [List.cons_append, segment_cons_iff, ih]
      constructor
      · rintro ⟨hl, n, hn, he, j, hxs, hys⟩
        exact ⟨j, ⟨hl, n, hn, he, hxs⟩, hys⟩
      · rintro ⟨j, ⟨hl, n, hn, he, hxs⟩, hys⟩
        exact ⟨hl, n, hn, he, j, hxs, hys⟩

theorem Segment.eq_nil {es : List (Element V)} {m : Link} (h : Segment nodes none es m) :
    es = [] := by
  cases h
  rfl

theorem Segment.get? {l m : Link} {es : List (Element V)} (h : Segment nodes l es m) :
    ∀ e ∈ es, ∃ n, nodes.get? e.key = some n ∧ n.value = e.value ∧ n.hash = e.hash := by
  induction h with
  | nil => simp
  | cons found rest ih =>
      intro e he
      rcases List.mem_cons.mp he with rfl | he
      · exact ⟨_, found, rfl, rfl⟩
      · exact ih e he

/-- From one link there is one chain. -/
theorem Segment.unique {l : Link} {xs ys : List (Element V)} (hx : Segment nodes l xs none)
    (hy : Segment nodes l ys none) : xs = ys := by
  generalize hm : (none : Link) = m at hx
  induction hx generalizing ys with
  | nil l =>
      subst hm
      exact hy.eq_nil.symm
  | @cons k n es m found rest ih =>
      cases ys with
      | nil => exact absurd (segment_nil_iff.1 hy) (by simp)
      | cons e ys =>
          obtain ⟨hl, n', hn', he, hys⟩ := segment_cons_iff.1 hy
          obtain rfl := Option.some.inj hl
          obtain rfl := Option.some.inj (found.symm.trans hn')
          rw [he, ih hys hm]

/-- A key on a chain starts a chain of its own, which is no longer. -/
theorem Segment.suffix {l : Link} {es : List (Element V)} (h : Segment nodes l es none)
    {k : ArenaKey} (hk : k ∈ keysOf es) :
    ∃ ys, Segment nodes (some k) ys none ∧ ys.length ≤ es.length := by
  obtain ⟨e, he, rfl⟩ := List.mem_map.1 hk
  obtain ⟨xs, ys, rfl⟩ := List.append_of_mem he
  obtain ⟨j, -, hys⟩ := segment_append.1 h
  obtain ⟨rfl, -⟩ := segment_cons_iff.1 hys
  exact ⟨e :: ys, hys, by simp⟩

/-- A chain repeats no node: a node met again would start the same chain again, which is shorter
by then. -/
theorem Segment.nodup {l : Link} {es : List (Element V)} (h : Segment nodes l es none) :
    (keysOf es).Nodup := by
  induction es generalizing l with
  | nil => exact List.nodup_nil
  | cons e es ih =>
      obtain ⟨rfl, n, -, -, hrest⟩ := segment_cons_iff.1 h
      refine List.nodup_cons.2 ⟨fun hmem => ?_, ih hrest⟩
      obtain ⟨ys, hys, hlen⟩ := hrest.suffix hmem
      have hlong : (e :: es).length = ys.length := congrArg List.length (h.unique hys)
      rw [List.length_cons] at hlong
      omega

theorem Segment.length_le {l : Link} {es : List (Element V)} (h : Segment nodes l es none) :
    es.length ≤ nodes.slots.size := by
  rw [← List.length_map (·.key)]
  refine Arena.length_le_slots h.nodup ?_
  intro k hk
  obtain ⟨e, he, rfl⟩ := List.mem_map.1 hk
  obtain ⟨n, hn, -⟩ := h.get? e he
  exact ⟨n, hn⟩

theorem Segment.follow_eq {l : Link} {es : List (Element V)} (h : Segment nodes l es none)
    {fuel : Nat} (hfuel : es.length ≤ fuel) : (follow nodes fuel l).map .ofCell = es := by
  induction es generalizing l fuel with
  | nil =>
      obtain rfl := segment_nil_iff.1 h
      rw [follow_none, List.map_nil]
  | cons e es ih =>
      obtain ⟨rfl, n, hn, he, hrest⟩ := segment_cons_iff.1 h
      cases fuel with
      | zero => simp at hfuel
      | succ fuel =>
          rw [follow, hn, List.map_cons, ih hrest (Nat.le_of_succ_le_succ hfuel), he]
          rfl

theorem Segment.follow_congr {l : Link} {es : List (Element V)} (h : Segment nodes l es none)
    {a b : Nat} (ha : es.length ≤ a) (hb : es.length ≤ b) :
    follow nodes a l = follow nodes b l := by
  induction es generalizing l a b with
  | nil =>
      obtain rfl := segment_nil_iff.1 h
      rw [follow_none, follow_none]
  | cons e es ih =>
      obtain ⟨rfl, n, hn, -, hrest⟩ := segment_cons_iff.1 h
      cases a with
      | zero => cases ha
      | succ a =>
          cases b with
          | zero => cases hb
          | succ b =>
              rw [follow, follow, hn]
              simp only [ih hrest (Nat.le_of_succ_le_succ ha) (Nat.le_of_succ_le_succ hb)]

theorem get?_of_mem_follow {fuel : Nat} {l : Link} {cell : Cell V}
    (h : cell ∈ follow nodes fuel l) : nodes.get? cell.1 = some cell.2 := by
  fun_induction follow nodes fuel l with
  | case1 => cases h
  | case2 => cases h
  | case3 fuel k n hn ih =>
      rcases List.mem_cons.1 h with rfl | h
      · exact hn
      · exact ih h
  | case4 => cases h

theorem Segment.cellsFrom_eq {c : Chains V} {l : Link} {es : List (Element V)}
    (h : Segment c.nodes l es none) : (c.cellsFrom l).map .ofCell = es :=
  h.follow_eq (Nat.le_succ_of_le h.length_le)

/-! ## Frames -/

/-- A segment depends on its own nodes only. -/
theorem Segment.congr {a b : Arena (Node V)} {l m : Link} {es : List (Element V)}
    (h : Segment a l es m) (hab : ∀ e ∈ es, b.get? e.key = a.get? e.key) : Segment b l es m := by
  induction h with
  | nil l => exact .nil l
  | cons found rest ih =>
      refine .cons ((hab _ (List.mem_cons_self ..)).trans found) (ih fun e he => ?_)
      exact hab e (List.mem_cons_of_mem _ he)

theorem Segment.modify {l m : Link} {es : List (Element V)} (h : Segment nodes l es m)
    {k : ArenaKey} (hk : k ∉ keysOf es) (f : Node V → Node V) :
    Segment (nodes.modify k f) l es m :=
  h.congr fun _ he => Arena.get?_modify_ne _ fun heq => hk (heq ▸ List.mem_map_of_mem he)

theorem Segment.remove {l m : Link} {es : List (Element V)} (h : Segment nodes l es m)
    {k : ArenaKey} (hk : k ∉ keysOf es) : Segment (nodes.remove k).2 l es m :=
  h.congr fun _ he => Arena.get?_remove_ne _ fun heq => hk (heq ▸ List.mem_map_of_mem he)

theorem Segment.insert {l m : Link} {es : List (Element V)} (h : Segment nodes l es m)
    (n : Node V) : Segment (nodes.insert n).2 l es m :=
  h.congr fun e he => Arena.get?_insert_ne _ _ fun heq => by
    obtain ⟨n', hn', -⟩ := h.get? e he
    rw [heq, Arena.get?_insert_fst] at hn'
    cases hn'

theorem Segment.setNext {l : Link} {xs : List (Element V)} {e : Element V} {m m' : Link}
    (h : Segment nodes l (xs ++ [e]) m) (hk : e.key ∉ keysOf xs) :
    Segment (nodes.modify e.key fun n => { n with next := m' }) l (xs ++ [e]) m' := by
  obtain ⟨j, hxs, he⟩ := segment_append.1 h
  obtain ⟨rfl, n, hn, hen, -⟩ := segment_cons_iff.1 he
  have hfound : (nodes.modify e.key fun n => { n with next := m' }).get? e.key
      = some { n with next := m' } := by
    rw [Arena.get?_modify_self, hn]
    rfl
  exact segment_append.2 ⟨_, hxs.modify hk _, segment_cons_iff.2 ⟨rfl, _, hfound, hen, .nil _⟩⟩

end Chains

end SeparateChaining
