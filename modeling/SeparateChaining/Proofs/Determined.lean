import Mathlib.Data.List.TakeWhile
import SeparateChaining.Proofs.Keyed

/-!
# What policies determine

Foreign code that answers as policies do leaves an operation no choice.
On the home chain of a key stands its *block*: from the first element
that meets the key, as many as meet it without a gap. Nothing is assumed
of the policies, so other elements that meet the key may stand behind
the gap. Searching finds the head of the block, a run is the block, and
where an insertion puts its node is settled by whether there is one.
-/

namespace SeparateChaining

variable {V K W : Type}

namespace Policies

variable {p : Policies V K} {q : K} {es xs ms ys : List (Element V)}

/-- Whether an element is taken to have the key `q`. -/
def meets (p : Policies V K) (q : K) (e : Element V) : Bool :=
  e.hash == p.hash q && p.hasKey q e.value

/-- The elements that meet `q`, from the first one up to a gap. -/
def block (p : Policies V K) (q : K) (es : List (Element V)) : List (Element V) :=
  (es.dropWhile fun e => !p.meets q e).takeWhile (p.meets q)

/-- The run that stands for the block. -/
def runIn (p : Policies V K) (q : K) (es : List (Element V)) : Option Table.Run :=
  (p.block q es).head?.map fun m =>
    ⟨m.key, ((p.block q es).getLast?.map (·.key)).getD m.key, (p.block q es).length⟩

theorem block_eq_nil (h : ∀ e ∈ es, p.meets q e = false) : p.block q es = [] := by
  have hall : (es.dropWhile fun e => !p.meets q e) = [] :=
    List.dropWhile_eq_nil_iff.2 fun e he => by rw [h e he]; rfl
  rw [block, hall, List.takeWhile_nil]

theorem block_append (hxs : ∀ x ∈ xs, p.meets q x = false) (hms : ∀ m ∈ ms, p.meets q m = true)
    (hne : ms ≠ []) (hys : ∀ y ∈ ys.head?, p.meets q y = false) :
    p.block q (xs ++ (ms ++ ys)) = ms := by
  have hdrop : ((xs ++ (ms ++ ys)).dropWhile fun e => !p.meets q e) = ms ++ ys := by
    rw [List.dropWhile_append_of_pos fun x hx => by rw [hxs x hx]; rfl]
    obtain ⟨m, ms, rfl⟩ := List.exists_cons_of_ne_nil hne
    rw [List.cons_append, List.dropWhile_cons_of_neg]
    rw [hms m (List.mem_cons_self ..)]
    decide
  have hrest : ys.takeWhile (p.meets q) = [] := by
    cases ys with
    | nil => rfl
    | cons y ys => exact List.takeWhile_cons_of_neg (by rw [hys y rfl]; decide)
  rw [block, hdrop, List.takeWhile_append_of_pos hms, hrest, List.append_nil]

/-- What stands where among `es`: the block `ms`, before it only elements that do not meet `q`, and
after it none that goes on with it. -/
structure BlockAt (p : Policies V K) (q : K) (es xs ms ys : List (Element V)) : Prop where
  split : es = xs ++ (ms ++ ys)
  before : ∀ x ∈ xs, p.meets q x = false
  within : ∀ m ∈ ms, p.meets q m = true
  after : ∀ y ∈ ys.head?, p.meets q y = false
  first : ms = [] → ys = []

theorem exists_blockAt (p : Policies V K) (q : K) (es : List (Element V)) :
    ∃ xs ys, p.BlockAt q es xs (p.block q es) ys := by
  refine ⟨es.takeWhile fun e => !p.meets q e,
    (es.dropWhile fun e => !p.meets q e).dropWhile (p.meets q), ?_, fun x hx => ?_, fun m hm => ?_,
    fun y hy => ?_, fun hnil => ?_⟩
  · rw [block, List.takeWhile_append_dropWhile, List.takeWhile_append_dropWhile]
  · simpa using List.mem_takeWhile_imp hx
  · exact List.mem_takeWhile_imp hm
  · have hhead := List.head?_dropWhile_not (p.meets q) (es.dropWhile fun e => !p.meets q e)
    rw [Option.mem_def.1 hy] at hhead
    simpa using hhead
  · -- the first of the rest meets `q`, so there is no rest
    have hhead := List.head?_dropWhile_not (fun e => !p.meets q e) es
    rw [block] at hnil
    cases hrest : es.dropWhile fun e => !p.meets q e with
    | nil => rfl
    | cons m ms =>
        rw [hrest] at hhead hnil
        rw [List.takeWhile_cons_of_pos (by simpa using hhead)] at hnil
        cases hnil

theorem count_runIn (p : Policies V K) (q : K) (es : List (Element V)) :
    ((p.runIn q es).map (·.count)).getD 0 = (p.block q es).length := by
  rw [runIn]
  cases p.block q es with
  | nil => rfl
  | cons m ms => rfl

end Policies

namespace Contract

variable {C : Contract V K W} {p : Policies V K} {q : K} {es xs ms ys : List (Element V)}
  {e : Element V}

theorem Says.meets (hC : C.Says p) (h : C.Matches (p.hash q) q e) : p.meets q e = true := by
  rw [Policies.meets, Table.hasKey_of_matches hC h, h.1, beq_self_eq_true, Bool.true_and]

theorem Says.not_meets (hC : C.Says p) (h : C.Differs (p.hash q) q e) : p.meets q e = false := by
  by_cases hhash : e.hash = p.hash q
  · obtain ⟨k, hk, heq⟩ := h hhash
    obtain rfl := hC.key hk
    rw [Policies.meets, Policies.hasKey, ← hC.eq heq, Bool.and_false]
  · rw [Policies.meets, beq_eq_false_iff_ne.2 hhash, Bool.false_and]

/-- The first match is the head of the block. -/
theorem Says.firstMatch (hC : C.Says p) {l : Link} (h : C.FirstMatch (p.hash q) q es l) :
    l = Chains.linkTo (p.block q es) := by
  cases l with
  | none =>
      rw [Policies.block_eq_nil fun e he => hC.not_meets (h e he)]
      rfl
  | some k =>
      obtain ⟨xs, e, ys, rfl, rfl, hmatch, hxs⟩ := h
      have hdrop : ((xs ++ e :: ys).dropWhile fun x => !p.meets q x) = e :: ys := by
        rw [List.dropWhile_append_of_pos fun x hx => by rw [hC.not_meets (hxs x hx)]; rfl,
          List.dropWhile_cons_of_neg]
        rw [hC.meets hmatch]
        decide
      rw [Policies.block, hdrop, List.takeWhile_cons_of_pos (hC.meets hmatch)]
      rfl

/-- What a run spans is the block. -/
theorem Says.spans (hC : C.Says p) {r : Table.Run} (h : C.Spans (p.hash q) q es r xs ms ys) :
    ms = p.block q es ∧ ms ≠ [] := by
  have hne : ms ≠ [] := Table.ne_nil_of_spans h fun e _ hmatch hdiffer => by
    cases (hC.meets hmatch).symm.trans (hC.not_meets hdiffer)
  refine ⟨?_, hne⟩
  rw [h.split]
  exact (Policies.block_append (fun x hx => hC.not_meets (h.before x hx))
    (fun m hm => hC.meets (h.within m hm)) hne fun y hy => hC.not_meets (h.after y hy)).symm

theorem Says.isRun (hC : C.Says p) {r : Option Table.Run} (h : C.IsRun (p.hash q) q es r) :
    r = p.runIn q es := by
  cases r with
  | none => rw [Policies.runIn, Policies.block_eq_nil fun e he => hC.not_meets (h e he)]; rfl
  | some r =>
      obtain ⟨xs, ms, ys, hspans⟩ := h
      obtain ⟨hms, hne⟩ := hC.spans hspans
      obtain ⟨m, ms, rfl⟩ := List.exists_cons_of_ne_nil hne
      obtain ⟨m', hm', hfirst, -⟩ := hspans.start
      obtain rfl := Option.some.inj hm'
      have hlast := hspans.last
      have hcount := hspans.count
      rw [← hfirst] at hlast
      obtain ⟨first, last, count⟩ := r
      obtain rfl := hfirst
      obtain rfl := hlast
      obtain rfl := hcount
      rw [Policies.runIn, ← hms]
      rfl

end Contract

namespace Table

variable {p : Policies V K} {t t' : Table V} {q : K} {v : V}

open Contract

/-- The block of `q` on its home chain. -/
def block (t : Table V) (p : Policies V K) (q : K) : List (Element V) :=
  p.block q (t.homeRow (p.hash q))

/-- The run of `q`. -/
def blockRun (t : Table V) (p : Policies V K) (q : K) : Option Run :=
  p.runIn q (t.homeRow (p.hash q))

/-- What becomes of `v`, offered to a table that has room for it, if it is to be new. -/
def placed (t : Table V) (p : Policies V K) (v : V) : Placement V × Table V :=
  match Chains.linkTo (t.block p (p.extract v)) with
  | some k => (.resident (t.cursor (some k)) v, t)
  | none =>
    let hash := p.hash (p.extract v)
    (.linked (t.cursor (some (t.linkedKey (t.homePlace hash) v hash))),
      t.linked (t.homePlace hash) v hash)

/-- Where `v` is linked in any case. -/
def besidePlace (t : Table V) (p : Policies V K) (v : V) : Chains.Place :=
  match Chains.linkTo (t.block p (p.extract v)) with
  | some k => .after k
  | none => t.homePlace (p.hash (p.extract v))

/-- What becomes of `v`, offered to a table that has room for it, in any case. -/
def added (t : Table V) (p : Policies V K) (v : V) : Cursor × Table V :=
  let hash := p.hash (p.extract v)
  (t.cursor (some (t.linkedKey (t.besidePlace p v) v hash)), t.linked (t.besidePlace p v) v hash)

theorem mem_homeRow_of_mem_block {e : Element V} (he : e ∈ t.block p q) :
    e ∈ t.homeRow (p.hash q) :=
  (List.dropWhile_sublist _).subset ((List.takeWhile_sublist (p.meets q)).subset he)

theorem fits_besidePlace (t : Table V) (p : Policies V K) (v : V) :
    t.Fits (p.hash (p.extract v)) (t.besidePlace p v) := by
  rw [besidePlace]
  cases hlink : Chains.linkTo (t.block p (p.extract v)) with
  | none => exact fits_homePlace t _
  | some k =>
      obtain ⟨e, he, rfl⟩ := Option.map_eq_some_iff.1 hlink
      obtain ⟨xs, ys, hrow⟩ :=
        List.append_of_mem (mem_homeRow_of_mem_block (List.mem_of_mem_head? he))
      exact fits_after hrow

variable {C : Contract V K W}

theorem placed_of (hC : C.Says p) {r : Placement V} (h : C.Placed t v r t') :
    (t.roomFor (t.size + 1)).placed p v = (r, t') := by
  cases h with
  | linked room key hashed new =>
      obtain rfl := hC.key key
      obtain rfl := hC.hash hashed
      subst room
      have hnone : none = Chains.linkTo ((t.roomFor (t.size + 1)).block p (p.extract v)) :=
        hC.firstMatch new
      rw [placed, ← hnone]
  | resident room key hashed found =>
      obtain rfl := hC.key key
      obtain rfl := hC.hash hashed
      subst room
      have hsome : some _ = Chains.linkTo ((t.roomFor (t.size + 1)).block p (p.extract v)) :=
        hC.firstMatch found
      rw [placed, ← hsome]

theorem added_of (hC : C.Says p) {c : Cursor} (h : C.Added t v c t') :
    (t.roomFor (t.size + 1)).added p v = (c, t') := by
  cases h with
  | alone room key hashed new =>
      obtain rfl := hC.key key
      obtain rfl := hC.hash hashed
      subst room
      have hnone : none = Chains.linkTo ((t.roomFor (t.size + 1)).block p (p.extract v)) :=
        hC.firstMatch new
      rw [added, besidePlace, ← hnone]
  | beside room key hashed found =>
      obtain rfl := hC.key key
      obtain rfl := hC.hash hashed
      subst room
      have hsome : some _ = Chains.linkTo ((t.roomFor (t.size + 1)).block p (p.extract v)) :=
        hC.firstMatch found
      rw [added, besidePlace, ← hsome]

/-- Iterating over a run yields the values of the block. -/
theorem toList_runIterator (hC : C.Says p) (hwf : t.chains.WellFormed) {r : Option Run}
    (h : C.IsRun (p.hash q) q (t.homeRow (p.hash q)) r) :
    (t.runIterator r).toList = (t.block p q).map (·.value) := by
  cases r with
  | none =>
      have hnone : t.block p q = [] := Policies.block_eq_nil fun e he => hC.not_meets (h e he)
      rw [hnone]
      rfl
  | some r =>
      obtain ⟨xs, ms, ys, hspans⟩ := h
      obtain ⟨rfl, hne⟩ := hC.spans hspans
      have helements := hwf.elements_split (hwf.home_lt (p.hash q))
      rw [show t.chains.row _ = _ from hspans.split] at helements
      have hsplit : t.chains.elements
          = ((List.range (t.chains.buckets.home (p.hash q))).flatMap t.chains.row ++ xs)
            ++ (t.block p q ++ (ys ++ t.chains.elementsFrom t.chains.row
              (t.chains.buckets.home (p.hash q) + 1))) := by
        rw [helements]
        simp only [List.append_assoc]
        rfl
      obtain ⟨hstart, hstop⟩ := links_of_spans hwf hspans hne hsplit
      rw [runIterator, hstart, hstop, hspans.count]
      exact hwf.toList_eq hsplit _

end Table

end SeparateChaining
