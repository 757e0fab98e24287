import SeparateChaining.Collection.HashBag
import SeparateChaining.Collection.HashMultimap
import SeparateChaining.Proofs.Collection.Behaviour

/-!
# Bags and multimaps

A hash bag is a finite multiset of keys, and a hash multimap one of
pairs. What they are expected to do is said of multisets, the equality
of keys alone, and, where elements are listed, that those with equal
keys stand side by side (`HashBag.behaviour`, `HashMultimap.behaviour`).
The tables that these collections are represent the multisets that are
their bags, so every run answers what a run of multisets answers
(`Collection.counted_after`). Nothing is left to chance in that but the
order of a listing, and which of several equal keys goes when one of
them is to go.
-/

namespace SeparateChaining

open Collection

variable {V K T W Q A : Type}

/-! ## Bags and tables -/

/-- Where the data are the bags themselves, a request does to the bag what the behaviour says. -/
theorem Represents.ofBags {B : Behaviour Q A (Multiset V)} {p : Policies V K} {sup : Supply W}
    {serve : Q → Op W V A} (hnew : B.new = 0)
    (h : ∀ q t, t.Kept p → Serves p sup t (serve q) (fun a t' => B.Answers q t.bag a t'.bag)
      fun t' => B.Stops q t.bag t'.bag) : Represents B p sup serve Eq where
  new := hnew.symm
  serves q t m ht := by
    obtain rfl : t.bag = m := ht.reads
    exact (h q t ht.kept).mono (fun a t' _ h => ⟨t'.bag, h, rfl⟩) fun t' h => ⟨t'.bag, h, rfl⟩

namespace Table.Kept

variable {p : Policies V K} {sup : Supply W} {t : Table V}

section Insertions

variable (ht : t.Kept p) (hp : p.Coherent) (hsup : sup.TakesBack)

include ht hp hsup

theorem serves_insert (v : V) :
    Serves p sup t (discard (insertAny! (p.environment sup) v)) (fun _ t' => t'.bag = v ::ₘ t.bag)
      (·.bag = t.bag) :=
  Serves.discard ((serves_insertAny! hp hsup ht v).monoPost fun _ _ _ h => h.1)

theorem serves_insertMany (vs : List V) :
    Serves p sup t (vs.forM fun v => discard (insertAny! (p.environment sup) v))
      (fun _ t' => t'.bag = ↑vs + t.bag)
      fun t' => ∃ n < vs.length, t'.bag = ↑(vs.take n) + t.bag := by
  have ht' : t.StandsFor p Eq t.bag := ⟨ht, rfl⟩
  refine ht'.serves_forM (g := fun vs => ↑vs + t.bag) (Multiset.zero_add _) ?_ vs
  intro vs v t' ht''
  refine (ht''.kept.serves_insert hp hsup v).mono ?_ fun t'' hbag => hbag.trans ht''.reads
  rintro - t'' - hbag
  rw [hbag, ht''.reads, ← Multiset.cons_add, ← Multiset.singleton_add, Multiset.add_comm {v},
    ← Multiset.coe_singleton, Multiset.coe_add]

end Insertions

theorem serves_size (ht : t.Kept p) :
    Serves p sup t (.read (·.size)) (fun n t' => n = t.bag.card ∧ t'.bag = t.bag)
      fun _ => False :=
  Serves.read ht ⟨(card_bag ht.sound.wellFormed).symm, rfl⟩

/-- A traversal is of the whole bag, and elements with equal keys stand side by side in it. -/
theorem serves_iterator (ht : t.Kept p) (hp : p.Coherent) :
    Serves p sup t (.read (·.iterator.toList))
      (fun vs t' => ↑vs = t.bag ∧ (∀ q, Grouped (p.hasKey q) vs) ∧ t'.bag = t.bag)
      fun _ => False := by
  have hwf := ht.sound.wellFormed
  refine Serves.read ht ?_
  rw [hwf.iterator_eq]
  refine ⟨rfl, fun q => (ht.keyed.grouped_elements hp hwf q).of_map_eq ?_, rfl⟩
  rw [values, ← Chains.map_value_elements, List.map_map]
  rfl

end Table.Kept

/-! ## Bags -/

namespace HashBag

/-- What users ask of a bag. -/
inductive Request (K : Type)
  | insert (k : K)
  | insertMany (ks : List K)
  | contains (q : K)
  | count (q : K)
  | eraseOne (q : K)
  | eraseAll (q : K)
  | clear
  | size
  | iterate

def serve (env : Environment K K W) : Request K → Op W K (Collection.Answer K Empty)
  | .insert k => do
    insert env k
    return .done
  | .insertMany ks => do
    insertMany env ks
    return .done
  | .contains q => return .flag (← contains env q)
  | .count q => return .number (← count env q)
  | .eraseOne q => return .flag (← eraseOne env q)
  | .eraseAll q => return .number (← eraseAll env q)
  | .clear => do
    Table.clear env
    return .done
  | .size => return .number (← .read (·.size))
  | .iterate => return .elements (← .read (·.iterator.toList))

/-- A finite multiset. Only insertions may be refused storage. What is refused changes nothing, but
of many elements some that come first may be in. -/
def behaviour (eq : K → K → Bool) :
    Behaviour (Request K) (Collection.Answer K Empty) (Multiset K) where
  new := 0
  Answers q b a b' :=
    match q with
    | .insert k => a = .done ∧ b' = k ::ₘ b
    | .insertMany ks => a = .done ∧ b' = ↑ks + b
    | .contains q => ∃ c, a = .flag c ∧ (c = true ↔ ∃ k ∈ b, eq k q = true) ∧ b' = b
    | .count q => a = .number (b.countP (eq · q = true)) ∧ b' = b
    | .eraseOne q => a = .flag true ∧ (∃ k, eq k q = true ∧ b = k ::ₘ b')
        ∨ a = .flag false ∧ (∀ k ∈ b, eq k q = false) ∧ b' = b
    | .eraseAll q => a = .number (b.countP (eq · q = true)) ∧ b' = b.filter (eq · q = false)
    | .clear => a = .done ∧ b' = 0
    | .size => a = .number b.card ∧ b' = b
    | .iterate => ∃ ks, a = .elements ks ∧ ↑ks = b ∧ (∀ q, Grouped (eq · q) ks) ∧ b' = b
  Stops q b b' :=
    match q with
    | .insert _ => b' = b
    | .insertMany ks => ∃ n < ks.length, b' = ↑(ks.take n) + b
    | _ => False

variable {hash : K → UInt64} {eq : K → K → Bool} {sup : Supply W} {t : Table K}

theorem serves_eraseOne (hp : (Policies.ofKeys hash eq).Coherent) (hsup : sup.TakesBack)
    (ht : t.Kept (.ofKeys hash eq)) (q : K) :
    Serves (.ofKeys hash eq) sup t (eraseOne (keyed hash eq sup) q)
      (fun b t' => b = true ∧ (∃ k, eq k q = true ∧ t.bag = k ::ₘ t'.bag)
        ∨ b = false ∧ (∀ k ∈ t.bag, eq k q = false) ∧ t'.bag = t.bag) fun _ => False := by
  refine (Table.serves_find hp hsup ht q).bind ?_
  rintro c t' hkept ⟨hbag, hend, hfound⟩
  cases hisEnd : c.isEnd with
  | true => exact Serves.pure hkept (Or.inr ⟨rfl, hend.1 hisEnd, hbag⟩)
  | false =>
      obtain ⟨k, -, hget, hq⟩ := hfound hisEnd
      have herase : Serves (.ofKeys hash eq) sup t' (discard (Table.erase (keyed hash eq sup) c))
          (fun _ t'' => t'.bag = k ::ₘ t''.bag) fun _ => False :=
        Serves.discard (Table.serves_erase hp hsup hkept hget)
      refine herase.bind ?_
      intro _ t'' hkept' herased
      exact Serves.pure hkept' (Or.inl ⟨rfl, k, hq, hbag.symm.trans herased⟩)

/-- Tables of keys that are kept under coherent policies represent multisets. -/
theorem represents (hp : (Policies.ofKeys hash eq).Coherent) (hsup : sup.TakesBack) :
    Represents (behaviour eq) (.ofKeys hash eq) sup (serve (keyed hash eq sup)) Eq := by
  refine .ofBags rfl fun q t ht => ?_
  cases q with
  | insert k =>
      exact ((ht.serves_insert hp hsup k).monoPost fun _ _ _ h => ⟨rfl, h⟩).map
  | insertMany ks =>
      exact ((ht.serves_insertMany hp hsup ks).monoPost fun _ _ _ h => ⟨rfl, h⟩).map
  | contains q =>
      exact ((Table.serves_contains hp hsup ht q).monoPost
        fun c _ _ h => ⟨c, rfl, h.2, h.1⟩).map
  | count q =>
      exact ((Table.serves_count hp hsup ht q).monoPost
        fun _ _ _ h => ⟨congrArg _ h.2, h.1⟩).map
  | eraseOne q =>
      exact ((serves_eraseOne hp hsup ht q).monoPost
        fun _ _ _ h => h.imp (And.imp_left (congrArg _)) (And.imp_left (congrArg _))).map
  | eraseAll q =>
      exact ((Table.serves_eraseRun hp hsup ht q).monoPost
        fun _ _ _ h => ⟨congrArg _ h.2, h.1⟩).map
  | clear => exact ((Table.serves_clear hp hsup ht).monoPost fun _ _ _ h => ⟨rfl, h⟩).map
  | size => exact (ht.serves_size.monoPost fun _ _ _ h => ⟨congrArg _ h.1, h.2⟩).map
  | iterate => exact ((ht.serves_iterator hp).monoPost fun ks _ _ h => ⟨ks, rfl, h⟩).map

end HashBag

/-! ## Multimaps -/

namespace HashMultimap

/-- What users ask of a multimap. -/
inductive Request (K T : Type)
  | insert (k : K) (t : T)
  | insertMany (ps : List (K × T))
  | contains (q : K)
  | count (q : K)
  | getAll (q : K)
  | eraseAll (q : K)
  | clear
  | size
  | iterate

def serve (env : Environment (K × T) K W) : Request K T → Op W (K × T) (Collection.Answer (K × T) T)
  | .insert k t => do
    insert env k t
    return .done
  | .insertMany ps => do
    insertMany env ps
    return .done
  | .contains q => return .flag (← contains env q)
  | .count q => return .number (← count env q)
  | .getAll q => return .seconds (← getAll env q)
  | .eraseAll q => return .number (← eraseAll env q)
  | .clear => do
    Table.clear env
    return .done
  | .size => return .number (← .read (·.size))
  | .iterate => return .elements (← .read (·.iterator.toList))

/-- A finite multiset of pairs. Only insertions may be refused storage. What is refused changes
nothing, but of many pairs some that come first may be in. -/
def behaviour (eq : K → K → Bool) :
    Behaviour (Request K T) (Collection.Answer (K × T) T) (Multiset (K × T)) where
  new := 0
  Answers q b a b' :=
    match q with
    | .insert k t => a = .done ∧ b' = (k, t) ::ₘ b
    | .insertMany ps => a = .done ∧ b' = ↑ps + b
    | .contains q => ∃ c, a = .flag c ∧ (c = true ↔ ∃ u ∈ b, eq u.1 q = true) ∧ b' = b
    | .count q => a = .number (b.countP (eq ·.1 q = true)) ∧ b' = b
    | .getAll q => ∃ ts, a = .seconds ts ∧ ↑ts = (b.filter (eq ·.1 q = true)).map (·.2) ∧ b' = b
    | .eraseAll q => a = .number (b.countP (eq ·.1 q = true)) ∧ b' = b.filter (eq ·.1 q = false)
    | .clear => a = .done ∧ b' = 0
    | .size => a = .number b.card ∧ b' = b
    | .iterate => ∃ us, a = .elements us ∧ ↑us = b ∧ (∀ q, Grouped (eq ·.1 q) us) ∧ b' = b
  Stops q b b' :=
    match q with
    | .insert _ _ => b' = b
    | .insertMany ps => ∃ n < ps.length, b' = ↑(ps.take n) + b
    | _ => False

/-- Tables of pairs that are kept under coherent policies represent multimaps. -/
theorem represents {hash : K → UInt64} {eq : K → K → Bool} {sup : Supply W}
    (hp : (Policies.ofPairs (T := T) hash eq).Coherent) (hsup : sup.TakesBack) :
    Represents (behaviour eq) (.ofPairs hash eq) sup (serve (T := T) (paired hash eq sup)) Eq := by
  refine .ofBags rfl fun q t ht => ?_
  cases q with
  | insert k u => exact ((ht.serves_insert hp hsup (k, u)).monoPost fun _ _ _ h => ⟨rfl, h⟩).map
  | insertMany ps => exact ((ht.serves_insertMany hp hsup ps).monoPost fun _ _ _ h => ⟨rfl, h⟩).map
  | contains q =>
      exact ((Table.serves_contains hp hsup ht q).monoPost
        fun c _ _ h => ⟨c, rfl, h.2, h.1⟩).map
  | count q =>
      exact ((Table.serves_count hp hsup ht q).monoPost
        fun _ _ _ h => ⟨congrArg _ h.2, h.1⟩).map
  | getAll q =>
      refine (Serves.map ((Table.serves_iteratorOf hp hsup ht q).monoPost ?_)).map
      rintro it t' - ⟨hbag, hlist⟩
      refine ⟨it.toList.map (·.2), rfl, ?_, hbag⟩
      rw [← Multiset.map_coe, hlist]
      rfl
  | eraseAll q =>
      exact ((Table.serves_eraseRun hp hsup ht q).monoPost
        fun _ _ _ h => ⟨congrArg _ h.2, h.1⟩).map
  | clear => exact ((Table.serves_clear hp hsup ht).monoPost fun _ _ _ h => ⟨rfl, h⟩).map
  | size => exact (ht.serves_size.monoPost fun _ _ _ h => ⟨congrArg _ h.1, h.2⟩).map
  | iterate => exact ((ht.serves_iterator hp).monoPost fun us _ _ h => ⟨us, rfl, h⟩).map

end HashMultimap

/-! ## Runs -/

/-- If the equality of keys is an equivalence and equal keys hash alike, then whatever is done with
a number of bags, copies of them among them, answers what finite multisets answer, and leaves
tables whose bags these are. What is done with multimaps answers what finite multisets of pairs
answer, and leaves tables whose bags these are. What panics is denied storage that it asks for. -/
theorem Collection.counted_after {hash : K → UInt64} {eq : K → K → Bool}
    (hp : (Policies.ofKeys hash eq).Coherent) {sup : Supply W} (hsup : sup.TakesBack) (w : W) :
    (∀ es : List (Event (HashBag.Request K)), ∃ h,
      (HashBag.behaviour eq).Runs
        (DeniedAfter (keyed hash eq sup) (HashBag.serve (keyed hash eq sup)) w) [] .empty es
        (run (keyed hash eq sup) (HashBag.serve (keyed hash eq sup)) es (.ofWorld w)).1 h
      ∧ (run (keyed hash eq sup) (HashBag.serve (keyed hash eq sup)) es (.ofWorld w)).2.StandsFor
        (.ofKeys hash eq) Eq h)
    ∧ ∀ es : List (Event (HashMultimap.Request K T)), ∃ h,
      (HashMultimap.behaviour eq).Runs
        (DeniedAfter (paired hash eq sup) (HashMultimap.serve (paired hash eq sup)) w) [] .empty es
        (run (paired hash eq sup) (HashMultimap.serve (paired hash eq sup)) es (.ofWorld w)).1 h
      ∧ (run (paired hash eq sup) (HashMultimap.serve (paired hash eq sup)) es
        (.ofWorld w)).2.StandsFor (.ofPairs hash eq) Eq h := by
  have hp' : (Policies.ofPairs (T := T) hash eq).Coherent := hp.ofPairs
  exact ⟨(HashBag.represents hp hsup).run hp hsup w,
    (HashMultimap.represents hp' hsup).run hp' hsup w⟩

/-- Numbers are keys, equal if they end in the same digit, and two such keys share each hash. The
last of many pairs grows the table, which reverses what stands under a key; a copy is then emptied
of one key. -/
theorem Collection.counted_after_growth :
    ∃ (hash : Nat → UInt64) (eq : Nat → Nat → Bool) (sup : Supply Unit)
      (es : List (Event (HashMultimap.Request Nat Nat))) (h : Shelf (Multiset (Nat × Nat))),
      hash = (fun k => (k % 5).toUInt64) ∧ eq = (fun a b => a % 10 == b % 10)
      ∧ sup = .unlimited 1024 8 8 ∧ (Policies.ofKeys hash eq).Coherent ∧ sup.TakesBack
      ∧ es = [.create 0, .on 0 (.insertMany ((List.range 54).map fun k => (k, 2 * k))),
        .on 0 (.getAll 73), .copy 0, .on 0 (.insert 83 1), .on 1 (.eraseAll 3), .on 0 (.getAll 3),
        .on 1 (.count 8), .on 1 .size]
      ∧ (HashMultimap.behaviour eq).Runs
        (DeniedAfter (paired hash eq sup) (HashMultimap.serve (paired hash eq sup)) ()) [] .empty es
        [.ok (.created 0), .ok (.answered (some .done)),
          .ok (.answered (some (.seconds [26, 106, 46, 66, 86, 6]))), .ok (.copied (some 1)),
          .ok (.answered (some .done)), .ok (.answered (some (.number 6))),
          .ok (.answered (some (.seconds [26, 1, 106, 46, 66, 86, 6]))),
          .ok (.answered (some (.number 5))), .ok (.answered (some (.number 48)))] h := by
  have hp : (Policies.ofKeys (fun k => (k % 5).toUInt64)
      fun a b : Nat => a % 10 == b % 10).Coherent :=
    .of_iff (· % 10) (fun _ _ => beq_iff_eq) fun a b (hdigit : a % 10 = b % 10) =>
      congrArg Nat.toUInt64 (show a % 5 = b % 5 by omega)
  have hsup : (.unlimited 1024 8 8 : Supply Unit).TakesBack := Supply.takesBack_unlimited 1024 8 8
  obtain ⟨h, hruns, -⟩ := (counted_after (T := Nat) hp hsup ()).2
    [.create 0, .on 0 (.insertMany ((List.range 54).map fun k => (k, 2 * k))),
        .on 0 (.getAll 73), .copy 0, .on 0 (.insert 83 1), .on 1 (.eraseAll 3), .on 0 (.getAll 3),
        .on 1 (.count 8), .on 1 .size]
  refine ⟨_, _, _, _, h, rfl, rfl, rfl, hp, hsup, rfl, ?_⟩
  refine Eq.mp (congrArg (fun rs => Behaviour.Runs _ _ _ _ _ rs _) ?_) hruns
  decide +kernel

end SeparateChaining
