import Mathlib.Data.Multiset.Filter
import SeparateChaining.Proofs.Command
import SeparateChaining.Proofs.Table.Lifetime

/-!
# The bag of a table

What a table holds, in no order and without its chains: a finite
multiset of values. Each change of a table has one law about its bag.
They all come from the same two facts about the elements of arranged
chains, that none occurs twice and that an element occurs exactly if
its key names it, so the order in which chains list them never matters.
-/

namespace SeparateChaining

variable {V : Type}

namespace Chains

variable {c c' : Chains V} {rows rows' : Nat → List (Element V)} {k : ArenaKey} {e : Element V}

/-- The elements in no order. -/
def content (c : Chains V) : Multiset (Element V) := ↑c.elements

theorem Arranged.nodup_content (h : c.Arranged rows) : c.content.Nodup :=
  List.Nodup.of_map _ h.nodup_elements

theorem Arranged.mem_content (h : c.Arranged rows) : e ∈ c.content ↔ c.element? e.key = some e :=
  h.mem_elements_iff

/-- Chains in which the same keys name the same elements hold the same. -/
theorem Arranged.content_congr (h : c.Arranged rows) (h' : c'.Arranged rows')
    (hsame : ∀ k, c'.element? k = c.element? k) : c'.content = c.content := by
  refine (Multiset.Nodup.ext h'.nodup_content h.nodup_content).2 ?_
  intro e
  rw [h.mem_content, h'.mem_content, hsame]

/-- Chains that have one element more, under a key that named none. -/
theorem Arranged.content_cons (h : c.Arranged rows) (h' : c'.Arranged rows')
    (hnone : c.element? e.key = none) (hself : c'.element? e.key = some e)
    (hothers : ∀ k ≠ e.key, c'.element? k = c.element? k) :
    c'.content = e ::ₘ c.content := by
  have hnot : e ∉ c.content := by
    intro hmem
    rw [h.mem_content, hnone] at hmem
    cases hmem
  have hnodup : (e ::ₘ c.content).Nodup := Multiset.nodup_cons.2 ⟨hnot, h.nodup_content⟩
  refine (Multiset.Nodup.ext h'.nodup_content hnodup).2 ?_
  intro x
  rw [h'.mem_content, Multiset.mem_cons, h.mem_content]
  by_cases hx : x.key = e.key
  · rw [hx, hself, hnone]
    simp [eq_comm]
  · rw [hothers _ hx]
    have hne : x ≠ e := fun heq => hx (congrArg Element.key heq)
    simp [hne]

theorem Arranged.content_without (h : c.Arranged rows) (he : c.element? k = some e) :
    c.content = e ::ₘ (c.without k).content := by
  obtain rfl := key_of_element? he
  refine (h.without e.key).content_cons h ?_ he fun j hj => ?_
  · rw [h.element?_without, if_pos rfl]
  · rw [h.element?_without, if_neg hj]

theorem Arranged.content_withoutAll (h : c.Arranged rows) (ks : List ArenaKey) :
    (c.withoutAll ks).content = c.content.filter fun e => e.key ∉ ks := by
  refine (Multiset.Nodup.ext (h.withoutAll ks).nodup_content
    (Multiset.Nodup.filter _ h.nodup_content)).2 ?_
  intro e
  rw [(h.withoutAll ks).mem_content, h.element?_withoutAll, Multiset.mem_filter, h.mem_content]
  by_cases he : e.key ∈ ks
  · simp [he]
  · simp [he]

end Chains

namespace Table

variable {t t' : Table V} {k : ArenaKey} {e : Element V}

/-- What the table holds, in no order. -/
def bag (t : Table V) : Multiset V := ↑t.values

theorem bag_eq (t : Table V) : t.bag = t.chains.content.map (·.value) := by
  rw [bag, values, ← Chains.map_value_elements]
  rfl

theorem mem_bag {v : V} : v ∈ t.bag ↔ ∃ e ∈ t.chains.elements, e.value = v := by
  rw [bag_eq, Multiset.mem_map]
  rfl

theorem card_bag (hwf : t.chains.WellFormed) : t.bag.card = t.size := by
  rw [bag_eq, Multiset.card_map]
  exact hwf.length_elements

theorem bag_ofBuckets (id : Nat) {n : Nat} (hn : 0 < n) :
    (ofBuckets id (.replicate n) : Table V).bag = 0 := by
  have helements : (ofBuckets id (.replicate n) : Table V).chains.elements = [] := by
    refine (Chains.arranged_ofBuckets hn).elements_eq.trans ?_
    simp
  rw [bag_eq, Chains.content, helements]
  rfl

/-- Growing moves elements and changes none. -/
theorem Widened.content (hwide : t.Widened t') (hwf : t.chains.WellFormed) :
    t'.chains.content = t.chains.content := by
  rcases hwide with rfl | ⟨n, -, hgrown⟩
  · rfl
  · exact hwf.content_congr hgrown.chains.arranged hgrown.chains.element?

theorem Widened.bag (hwide : t.Widened t') (hwf : t.chains.WellFormed) : t'.bag = t.bag := by
  rw [bag_eq, bag_eq, hwide.content hwf]

theorem content_linked (hwf : t.chains.WellFormed) {hash : UInt64} {p : Chains.Place}
    (hfits : t.Fits hash p) (v : V) :
    (t.linked p v hash).chains.content = ⟨t.linkedKey p v hash, v, hash⟩ ::ₘ t.chains.content :=
  Chains.Arranged.content_cons (e := ⟨t.linkedKey p v hash, v, hash⟩) hwf
    (wellFormed_linked hwf hfits v) (Chains.element?_insertAt_fst p v hash)
    ((Chains.element?_insertAt p v hash _).trans (if_pos rfl))
    fun k hk => (Chains.element?_insertAt p v hash k).trans (if_neg hk)

theorem bag_linked (hwf : t.chains.WellFormed) {hash : UInt64} {p : Chains.Place}
    (hfits : t.Fits hash p) (v : V) : (t.linked p v hash).bag = v ::ₘ t.bag := by
  rw [bag_eq, bag_eq, content_linked hwf hfits, Multiset.map_cons]

theorem bag_without (hwf : t.chains.WellFormed) (he : t.chains.element? k = some e) :
    t.bag = e.value ::ₘ (t.without k).bag := by
  rw [bag_eq, bag_eq, hwf.content_without he, Multiset.map_cons]
  rfl

/-- Taking out a stretch of the traversal leaves what stands around it. -/
theorem bag_withoutAll (hwf : t.chains.WellFormed) {xs ms zs : List (Element V)}
    (hsplit : t.chains.elements = xs ++ (ms ++ zs)) :
    (t.withoutAll (Chains.keysOf ms)).bag = ↑((xs ++ zs).map (·.value)) := by
  have hnodup := hwf.nodup_elements
  rw [hsplit] at hnodup
  rw [bag_eq]
  show ((t.chains.withoutAll _).content).map _ = _
  rw [hwf.content_withoutAll, Chains.content, Multiset.filter_coe, hsplit,
    Chains.filter_key_notMem hnodup, Multiset.map_coe]

theorem bag_cleared (hwf : t.chains.WellFormed) :
    (t.withoutAll (Chains.keysOf t.chains.elements)).bag = 0 :=
  bag_withoutAll hwf t.chains.elements_split_nil

theorem content_edited (hwf : t.chains.WellFormed) {n : Node V}
    (hn : t.chains.nodes.get? k = some n) (f : V → V) :
    (t.edited k f).chains.content = ⟨k, f n.value, n.hash⟩ ::ₘ (t.without k).chains.content := by
  have hself : (t.edited k f).chains.element? k = some ⟨k, f n.value, n.hash⟩ := by
    rw [Chains.element?, get?_edited, hn]
    simp
  have hothers : ∀ j ≠ k, (t.edited k f).chains.element? j = (t.without k).chains.element? j := by
    intro j hj
    rw [Chains.element?, get?_edited, Option.map_map, without, hwf.element?_without, if_neg hj]
    simp only [hj, if_false]
    rfl
  exact Chains.Arranged.content_cons (e := ⟨k, f n.value, n.hash⟩) (wellFormed_without hwf k)
    (wellFormed_edited hwf k f) ((hwf.element?_without k k).trans (if_pos rfl)) hself hothers

theorem bag_edited (hwf : t.chains.WellFormed) {n : Node V}
    (hn : t.chains.nodes.get? k = some n) (f : V → V) :
    (t.edited k f).bag = f n.value ::ₘ (t.without k).bag := by
  rw [bag_eq, bag_eq, content_edited hwf hn, Multiset.map_cons]

/-! ## Values at cursors -/

theorem get_cursor (he : t.chains.element? k = some e) :
    t.get (t.cursor (some k)) = .ok e.value := by
  obtain ⟨n, hn, rfl⟩ := Chains.element?_eq_some.1 he
  simp [get, cell, cursor, hn]
  rfl

theorem get_linked (t : Table V) (place : Chains.Place) (v : V) (hash : UInt64) :
    (t.linked place v hash).get (t.cursor (some (t.linkedKey place v hash))) = .ok v :=
  get_cursor (t := t.linked place v hash)
    ((Chains.element?_insertAt place v hash _).trans (if_pos rfl))

end Table

end SeparateChaining
