import SeparateChaining.Collection.HashMap
import SeparateChaining.Collection.HashSet
import SeparateChaining.Proofs.Collection.Behaviour
import SeparateChaining.Proofs.Collection.Bindings

/-!
# Maps and sets

A hash map is a finite map and a hash set a finite set, as long as their
keys are compared by an equivalence and equal keys hash alike. What maps
and sets are expected to do is said in terms of the equality of keys
alone: under equal keys stands one thing, `HashMap.behaviour` and
`HashSet.behaviour` say what each request answers about it and makes of
it, and how keys are hashed and how many buckets there are does not come
in. The tables that these collections are represent such bindings
through `Holds`, so every run answers what a run of bindings answers
(`Collection.bound_after`).

The requests are put together from few operations of the table. What
these do to bindings is shown once for all policies; what is particular
to maps is that an insertion of a pair whose key is there is undone by
exchanging the second half of the pair that was found.
-/

namespace SeparateChaining

open Collection

variable {V K T W : Type}

/-! ## Bindings and tables -/

namespace Table.StandsFor

variable {p : Policies V K} {sup : Supply W} {t : Table V} {m : Bindings V K}

section Lookups

variable (ht : t.StandsFor p (Holds p) m) (hp : p.Coherent) (hsup : sup.TakesBack)

include ht hp hsup

theorem serves_find (q : K) :
    Serves p sup t (find (p.environment sup) q)
      (fun c t' => Holds p t'.bag m ∧ (c.isEnd = true ∧ m q = none
        ∨ ¬c.isEnd = true ∧ ∃ v, m q = some v ∧ t'.get c = .ok v))
      fun _ => False := by
  refine (Table.serves_find hp hsup ht.kept q).monoPost ?_
  rintro c t' - ⟨hbag, hend, hfound⟩
  refine ⟨hbag ▸ ht.reads, ?_⟩
  cases hisEnd : c.isEnd with
  | true => exact Or.inl ⟨rfl, ht.reads.eq_none_iff.2 (hend.1 hisEnd)⟩
  | false =>
      obtain ⟨v, hv, hget, hq⟩ := hfound hisEnd
      exact Or.inr ⟨Bool.false_ne_true, v, ht.reads.eq_some_iff.2 ⟨hv, hq⟩, hget⟩

theorem serves_find? (q : K) :
    Serves p sup t (Collection.find? (p.environment sup) q)
      (fun o t' => o = m q ∧ Holds p t'.bag m) fun _ => False := by
  refine (ht.serves_find hp hsup q).bind ?_
  rintro c t' hkept ⟨hholds, ⟨hend, hm⟩ | ⟨hend, v, hm, hget⟩⟩
  · rw [if_pos hend]
    exact Serves.pure hkept ⟨hm.symm, hholds⟩
  · rw [if_neg hend]
    exact Serves.bindQuery hget (Serves.pure hkept ⟨hm.symm, hholds⟩)

theorem serves_take? (q : K) :
    Serves p sup t (Collection.take? (p.environment sup) q)
      (fun o t' => o = m q ∧ Holds p t'.bag (m.set p.keyEq q none)) fun _ => False := by
  refine (ht.serves_find hp hsup q).bind ?_
  rintro c t' hkept ⟨hholds, ⟨hend, hm⟩ | ⟨hend, v, hm, hget⟩⟩
  · rw [if_pos hend]
    refine Serves.pure hkept ⟨hm.symm, ?_⟩
    rw [hholds.set_self hp hm]
    exact hholds
  · rw [if_neg hend]
    refine (Table.serves_remove hp hsup hkept hget).bind ?_
    rintro u t'' hkept' ⟨rfl, hbag⟩
    refine Serves.pure hkept' ⟨hm.symm, ?_⟩
    have hq := (hholds.eq_some_iff.1 hm).2
    rw [hbag] at hholds
    exact hholds.remove hp hq

theorem serves_contains (q : K) :
    Serves p sup t (contains (p.environment sup) q)
      (fun b t' => b = (m q).isSome ∧ Holds p t'.bag m) fun _ => False := by
  refine (Table.serves_contains hp hsup ht.kept q).monoPost ?_
  rintro b t' - ⟨hbag, hb⟩
  exact ⟨Bool.eq_iff_iff.2 (hb.trans ht.reads.isSome_iff.symm), hbag ▸ ht.reads⟩

/-- Erasing whatever has the key. -/
theorem serves_eraseRun (q : K) :
    Serves p sup t (eraseRun (p.environment sup) q)
      (fun n t' => n = (m q).toList.length ∧ Holds p t'.bag (m.set p.keyEq q none))
      fun _ => False := by
  refine (Table.serves_eraseRun hp hsup ht.kept q).monoPost ?_
  rintro n t' - ⟨hbag, hn⟩
  rw [hbag]
  exact ⟨hn.trans (ht.reads.countP q), ht.reads.removeAll hp q⟩

theorem serves_clear :
    Serves p sup t (clear (p.environment sup))
      (fun u t' => u = () ∧ Holds p t'.bag fun _ => none) fun _ => False := by
  refine (Table.serves_clear hp hsup ht.kept).monoPost ?_
  rintro - t' - hbag
  rw [hbag]
  exact ⟨rfl, Holds.zero p⟩

/-- What became of an element that was offered to the bindings. -/
def OfferedTo (p : Policies V K) (m : Bindings V K) (v : V) (t' : Table V) : Placement V → Prop
  | .linked _ => m (p.extract v) = none
      ∧ Holds p t'.bag (m.set p.keyEq (p.extract v) (some v))
  | .resident c rejected => rejected = v ∧ Holds p t'.bag m
      ∧ ∃ u, m (p.extract v) = some u ∧ t'.get c = .ok u

theorem serves_insertNew! (v : V) :
    Serves p sup t (insertNew! (p.environment sup) v) (fun r t' => OfferedTo p m v t' r)
      fun t' => Holds p t'.bag m := by
  refine (Table.serves_insertNew! hp hsup ht.kept v).mono ?_ fun t' hbag => hbag ▸ ht.reads
  rintro (c | ⟨c, rejected⟩) t' - hr
  · obtain ⟨hnew, hbag, -⟩ := hr
    have hm : m (p.extract v) = none := ht.reads.eq_none_iff.2 hnew
    refine ⟨hm, ?_⟩
    rw [hbag]
    exact ht.reads.add hp hm (hp.refl _)
  · obtain ⟨rfl, hbag, u, hu, hget, hkey⟩ := hr
    exact ⟨rfl, hbag ▸ ht.reads, u, ht.reads.eq_some_iff.2 ⟨hu, hkey⟩, hget⟩

/-- Inserting only what is new. -/
theorem serves_insertIfNew (v : V) :
    Serves p sup t (do return (← insertNew! (p.environment sup) v).isLinked)
      (fun b t' => b = (m (p.extract v)).isNone
        ∧ Holds p t'.bag (m.set p.keyEq (p.extract v) (some ((m (p.extract v)).getD v))))
      fun t' => Holds p t'.bag m := by
  refine ((ht.serves_insertNew! hp hsup v).monoPost ?_).map
  rintro (c | ⟨c, rejected⟩) t' - hr
  · obtain ⟨hm, hholds⟩ := hr
    rw [hm]
    exact ⟨rfl, hholds⟩
  · obtain ⟨-, hholds, u, hm, -⟩ := hr
    refine ⟨by rw [hm]; rfl, ?_⟩
    rw [hholds.set_self hp (by rw [hm]; rfl)]
    exact hholds

end Lookups

theorem serves_modifyAt (ht : t.StandsFor p (Holds p) m) (hp : p.Coherent) {q : K} {u : V}
    (hm : m q = some u) {c : Cursor} (hget : t.get c = .ok u) {f : V → V}
    (hf : p.hasKey (p.extract u) (f u) = true) :
    Serves p sup t (modifyAt c f)
      (fun _ t' => Holds p t'.bag (m.set p.keyEq q (some (f u))) ∧ t'.get c = .ok (f u))
      fun _ => False := by
  have hq := (ht.reads.eq_some_iff.1 hm).2
  refine (Table.serves_modifyAt ht.kept hp hget hf).monoPost ?_
  rintro - t' - ⟨⟨rest, hbag, hbag'⟩, hget'⟩
  refine ⟨?_, hget'⟩
  have hholds := ht.reads
  rw [hbag] at hholds
  rw [hbag']
  exact hholds.replace hp hq (hp.trans _ _ _ hf hq)

/-- The traversal lists the bindings, and the size is its length. -/
theorem lists_values (ht : t.StandsFor p (Holds p) m) :
    m.Lists p.hasKey t.values ∧ t.values.length = t.size :=
  ⟨Holds.lists ht.reads, card_bag ht.kept.sound.wellFormed⟩

theorem serves_size {β : Type} (ht : t.StandsFor p (Holds p) m) (g : Nat → β) :
    Serves p sup t (do return g (← .read (·.size)))
      (fun b t' => (∃ vs, m.Lists p.hasKey vs ∧ b = g vs.length) ∧ Holds p t'.bag m)
      fun _ => False :=
  (Serves.read ht.kept ⟨⟨_, ht.lists_values.1, congrArg g ht.lists_values.2.symm⟩, ht.reads⟩).map

theorem serves_iterator {β : Type} (ht : t.StandsFor p (Holds p) m) (g : List V → β) :
    Serves p sup t (do return g (← .read (·.iterator.toList)))
      (fun b t' => (∃ vs, m.Lists p.hasKey vs ∧ b = g vs) ∧ Holds p t'.bag m)
      fun _ => False := by
  refine (Serves.read ht.kept ⟨⟨_, ht.lists_values.1, congrArg g ?_⟩, ht.reads⟩).map
  exact ht.kept.sound.wellFormed.iterator_eq

end Table.StandsFor

/-! ## Maps -/

namespace HashMap

/-- What users ask of a map. -/
inductive Request (K T : Type)
  | insert (k : K) (t : T)
  | insertMany (ps : List (K × T))
  | insertIfNew (k : K) (t : T)
  | get (q : K)
  | modify (q : K) (f : T → T)
  | contains (q : K)
  | take (q : K)
  | takeEntry (q : K)
  | clear
  | size
  | iterate

def serve (env : Environment (K × T) K W) : Request K T → Op W (K × T) (Collection.Answer (K × T) T)
  | .insert k t => return .second (← insert env k t)
  | .insertMany ps => do
    insertMany env ps
    return .done
  | .insertIfNew k t => return .flag (← insertIfNew env k t)
  | .get q => return .second (← get? env q)
  | .modify q f => return .second (← modify env q f)
  | .contains q => return .flag (← contains env q)
  | .take q => return .second (← take? env q)
  | .takeEntry q => return .element (← takeEntry? env q)
  | .clear => do
    Table.clear env
    return .done
  | .size => return .number (← .read (·.size))
  | .iterate => return .elements (← .read (·.iterator.toList))

variable (eq : K → K → Bool)

/-- Pairs that are offered in order: under each key the second half that was offered last, with the
first half that was there, or else was offered first. -/
def merge (m : Bindings (K × T) K) (ps : List (K × T)) : Bindings (K × T) K := fun q =>
  ((m q).or (ps.find? (eq ·.1 q))).map fun u => (u.1, ((ps.reverse.find? (eq ·.1 q)).getD u).2)

/-- What a request makes of the bindings. -/
def leaves (m : Bindings (K × T) K) : Request K T → Bindings (K × T) K
  | .insert k t => m.set eq k (some (((m k).map (·.1)).getD k, t))
  | .insertMany ps => merge eq m ps
  | .insertIfNew k t => m.set eq k (some ((m k).getD (k, t)))
  | .modify q f => m.set eq q ((m q).map fun u => (u.1, f u.2))
  | .take q | .takeEntry q => m.set eq q none
  | .clear => fun _ => none
  | .get _ | .contains _ | .size | .iterate => m

/-- What a request may answer about the bindings. -/
def Tells (m : Bindings (K × T) K) : Request K T → Collection.Answer (K × T) T → Prop
  | .insert k _, a | .get k, a | .take k, a => a = .second ((m k).map (·.2))
  | .insertIfNew k _, a => a = .flag (m k).isNone
  | .modify q f, a => a = .second ((m q).map fun u => f u.2)
  | .contains q, a => a = .flag (m q).isSome
  | .takeEntry q, a => a = .element (m q)
  | .insertMany _, a | .clear, a => a = .done
  | .size, a => ∃ vs, m.Lists (fun q u => eq u.1 q) vs ∧ a = .number vs.length
  | .iterate, a => ∃ vs, m.Lists (fun q u => eq u.1 q) vs ∧ a = .elements vs

/-- A finite map. Only insertions may be refused storage. What is refused changes nothing, but of
many pairs some that come first may be in. -/
def behaviour : Behaviour (Request K T) (Collection.Answer (K × T) T) (Bindings (K × T) K) where
  new := fun _ => none
  Answers q m a m' := Tells eq m q a ∧ m' = leaves eq m q
  Stops q m m' :=
    match q with
    | .insert _ _ | .insertIfNew _ _ => m' = m
    | .insertMany ps => ∃ n < ps.length, m' = merge eq m (ps.take n)
    | _ => False

section Served

variable {hash : K → UInt64} {eq : K → K → Bool} {sup : Supply W} {t : Table (K × T)}
  {m : Bindings (K × T) K}

/-- One more pair is merged as it is inserted. -/
theorem merge_concat (hp : (Policies.ofPairs (T := T) hash eq).Coherent) {ps : List (K × T)}
    {b : Multiset (K × T)} (h : Holds (.ofPairs hash eq) b (merge eq m ps)) (x : K × T) :
    merge eq m (ps ++ [x]) = leaves eq (merge eq m ps) (.insert x.1 x.2) := by
  funext q
  rw [leaves, Bindings.set]
  split
  · have hq : eq x.1 q = true := ‹_›
    -- equal keys are merged alike, so one may look under `q` for what is under the key of `x`
    rw [h.congr hp hq]
    cases hm : m q with
    | some u => simp [merge, List.find?_append, hq, hm]
    | none =>
        cases hfirst : ps.find? (eq ·.1 q) with
        | some u => simp [merge, List.find?_append, hq, hm, hfirst]
        | none => simp [merge, List.find?_append, hq, hm, hfirst]
  · simp [merge, List.find?_append, *]

variable (hp : (Policies.ofPairs (T := T) hash eq).Coherent) (hsup : sup.TakesBack)
  (ht : t.StandsFor (.ofPairs hash eq) (Holds (.ofPairs hash eq)) m)

include hp hsup ht

theorem serves_insert (k : K) (u : T) :
    Serves (.ofPairs hash eq) sup t (insert (paired hash eq sup) k u)
      (fun o t' => o = (m k).map (·.2)
        ∧ Holds (.ofPairs hash eq) t'.bag (leaves eq m (.insert k u)))
      fun t' => Holds (.ofPairs hash eq) t'.bag m := by
  refine (ht.serves_insertNew! hp hsup (k, u)).bind ?_
  rintro (c | ⟨c, rejected⟩) t' hkept hr
  · have hk : m k = none := hr.1
    rw [leaves, hk]
    exact Serves.pure hkept ⟨rfl, hr.2⟩
  · -- the key is there: the pair that was found keeps its first half and gets the second
    obtain ⟨rfl, hholds, old, hm, hget⟩ := hr
    have hk : m k = some old := hm
    have ht' : t'.StandsFor _ _ m := ⟨hkept, hholds⟩
    rw [leaves, hk]
    refine Serves.bindQuery hget
      ((ht'.serves_modifyAt hp hk hget (f := setSecond u) (hp.refl _)).uncut.bind ?_)
    rintro - t'' hkept' ⟨hset, -⟩
    exact Serves.pure hkept' ⟨rfl, hset⟩

theorem serves_insertMany (ps : List (K × T)) :
    Serves (.ofPairs hash eq) sup t (insertMany (paired hash eq sup) ps)
      (fun u t' => u = () ∧ Holds (.ofPairs hash eq) t'.bag (merge eq m ps))
      fun t' => ∃ n < ps.length, Holds (.ofPairs hash eq) t'.bag (merge eq m (ps.take n)) := by
  refine (ht.serves_forM (g := merge eq m) (by funext q; simp [merge]) ?_ ps).monoPost
    fun _ _ _ h => ⟨rfl, h⟩
  intro ps x t' ht'
  refine Serves.discard ((serves_insert hp hsup ht' x.1 x.2).monoPost ?_)
  rintro _ t'' - ⟨-, hinsert⟩
  rw [merge_concat hp ht'.reads]
  exact hinsert

theorem serves_modify (q : K) (f : T → T) :
    Serves (.ofPairs hash eq) sup t (modify (paired hash eq sup) q f)
      (fun o t' => o = ((m q).map fun u => f u.2)
        ∧ Holds (.ofPairs hash eq) t'.bag (leaves eq m (.modify q f)))
      fun _ => False := by
  refine (ht.serves_find hp hsup q).bind ?_
  rintro c t' hkept ⟨hholds, ⟨hend, hm⟩ | ⟨hend, u, hm, hget⟩⟩
  · rw [if_pos hend, leaves, hm]
    refine Serves.pure hkept ⟨rfl, ?_⟩
    rw [Option.map_none, hholds.set_self hp hm]
    exact hholds
  · rw [if_neg hend, leaves, hm]
    have ht' : t'.StandsFor _ _ m := ⟨hkept, hholds⟩
    refine (ht'.serves_modifyAt hp hm hget (f := fun u => setSecond (f u.2) u) (hp.refl _)).bind ?_
    rintro - t'' hkept' ⟨hset, hget'⟩
    exact Serves.bindQuery hget' (Serves.pure hkept' ⟨rfl, hset⟩)

end Served

/-- Tables of pairs that are kept under coherent policies represent maps. -/
theorem represents {hash : K → UInt64} {eq : K → K → Bool} {sup : Supply W}
    (hp : (Policies.ofPairs (T := T) hash eq).Coherent) (hsup : sup.TakesBack) :
    Represents (behaviour eq) (.ofPairs hash eq) sup (serve (T := T) (paired hash eq sup))
      (Holds (.ofPairs hash eq)) where
  new := Holds.zero _
  serves q t m ht := by
    cases q with
    | insert k u =>
        exact (serves_insert hp hsup ht k u).answer.determined fun _ h => ⟨m, rfl, h⟩
    | insertMany ps =>
        exact (serves_insertMany hp hsup ht ps).answer.determined
          fun _ ⟨n, hn, h⟩ => ⟨_, ⟨n, hn, rfl⟩, h⟩
    | insertIfNew k u =>
        exact (ht.serves_insertIfNew hp hsup (k, u)).answer.determined fun _ h => ⟨m, rfl, h⟩
    | get q => exact (ht.serves_find? hp hsup q).answer.answer.determined fun _ h => h.elim
    | modify q f => exact (serves_modify hp hsup ht q f).answer.determined fun _ h => h.elim
    | contains q => exact (ht.serves_contains hp hsup q).answer.determined fun _ h => h.elim
    | take q => exact (ht.serves_take? hp hsup q).answer.answer.determined fun _ h => h.elim
    | takeEntry q => exact (ht.serves_take? hp hsup q).answer.determined fun _ h => h.elim
    | clear => exact (ht.serves_clear hp hsup).answer.determined fun _ h => h.elim
    | size => exact (ht.serves_size _).determined fun _ h => h.elim
    | iterate => exact (ht.serves_iterator _).determined fun _ h => h.elim

end HashMap

/-! ## Sets -/

namespace HashSet

/-- What users ask of a set. -/
inductive Request (K : Type)
  | insert (k : K)
  | insertMany (ks : List K)
  | contains (q : K)
  | get (q : K)
  | erase (q : K)
  | take (q : K)
  | clear
  | size
  | iterate

def serve (env : Environment K K W) : Request K → Op W K (Collection.Answer K Empty)
  | .insert k => return .flag (← insert env k)
  | .insertMany ks => do
    insertMany env ks
    return .done
  | .contains q => return .flag (← contains env q)
  | .get q => return .element (← get? env q)
  | .erase q => return .flag (← erase env q)
  | .take q => return .element (← take? env q)
  | .clear => do
    Table.clear env
    return .done
  | .size => return .number (← .read (·.size))
  | .iterate => return .elements (← .read (·.iterator.toList))

variable (eq : K → K → Bool)

/-- Elements that are offered in order: of those that are equal, the one that was there, or else
was offered first. -/
def union (m : Bindings K K) (ks : List K) : Bindings K K := fun q => (m q).or (ks.find? (eq · q))

/-- What a request makes of the set. -/
def leaves (m : Bindings K K) : Request K → Bindings K K
  | .insert k => m.set eq k (some ((m k).getD k))
  | .insertMany ks => union eq m ks
  | .erase q | .take q => m.set eq q none
  | .clear => fun _ => none
  | .contains _ | .get _ | .size | .iterate => m

/-- What a request may answer about the set. -/
def Tells (m : Bindings K K) : Request K → Collection.Answer K Empty → Prop
  | .insert k, a => a = .flag (m k).isNone
  | .contains q, a | .erase q, a => a = .flag (m q).isSome
  | .get q, a | .take q, a => a = .element (m q)
  | .insertMany _, a | .clear, a => a = .done
  | .size, a => ∃ ks, m.Lists (fun q k => eq k q) ks ∧ a = .number ks.length
  | .iterate, a => ∃ ks, m.Lists (fun q k => eq k q) ks ∧ a = .elements ks

/-- A finite set. Only insertions may be refused storage. What is refused changes nothing, but of
many elements some that come first may be in. -/
def behaviour : Behaviour (Request K) (Collection.Answer K Empty) (Bindings K K) where
  new := fun _ => none
  Answers q m a m' := Tells eq m q a ∧ m' = leaves eq m q
  Stops q m m' :=
    match q with
    | .insert _ => m' = m
    | .insertMany ks => ∃ n < ks.length, m' = union eq m (ks.take n)
    | _ => False

section Served

variable {hash : K → UInt64} {eq : K → K → Bool} {sup : Supply W} {t : Table K}
  {m : Bindings K K}

/-- One more element is united as it is inserted. -/
theorem union_concat (hp : (Policies.ofKeys hash eq).Coherent) {ks : List K} {b : Multiset K}
    (h : Holds (.ofKeys hash eq) b (union eq m ks)) (x : K) :
    union eq m (ks ++ [x]) = leaves eq (union eq m ks) (.insert x) := by
  funext q
  rw [leaves, Bindings.set]
  split
  · have hq : eq x q = true := ‹_›
    rw [h.congr hp hq]
    cases hm : m q with
    | some u => simp [union, List.find?_append, hm]
    | none =>
        cases hfirst : ks.find? (eq · q) with
        | some u => simp [union, List.find?_append, hm, hfirst]
        | none => simp [union, List.find?_append, hq, hm, hfirst]
  · simp [union, List.find?_append, *]

variable (hp : (Policies.ofKeys hash eq).Coherent) (hsup : sup.TakesBack)
  (ht : t.StandsFor (.ofKeys hash eq) (Holds (.ofKeys hash eq)) m)

include hp hsup ht

theorem serves_insertMany (ks : List K) :
    Serves (.ofKeys hash eq) sup t (insertMany (keyed hash eq sup) ks)
      (fun u t' => u = () ∧ Holds (.ofKeys hash eq) t'.bag (union eq m ks))
      fun t' => ∃ n < ks.length, Holds (.ofKeys hash eq) t'.bag (union eq m (ks.take n)) := by
  refine (ht.serves_forM (g := union eq m) (by funext q; simp [union]) ?_ ks).monoPost
    fun _ _ _ h => ⟨rfl, h⟩
  intro ks x t' ht'
  refine Serves.discard ((ht'.serves_insertIfNew hp hsup x).monoPost ?_)
  rintro _ t'' - ⟨-, hinsert⟩
  rw [union_concat hp ht'.reads]
  exact hinsert

theorem serves_erase (q : K) :
    Serves (.ofKeys hash eq) sup t (erase (keyed hash eq sup) q)
      (fun b t' => b = (m q).isSome ∧ Holds (.ofKeys hash eq) t'.bag (m.set eq q none))
      fun _ => False := by
  refine ((ht.serves_eraseRun hp hsup q).monoPost ?_).map
  rintro n t' - ⟨rfl, hholds⟩
  refine ⟨?_, hholds⟩
  cases m q with
  | none => rfl
  | some k => rfl

end Served

/-- Tables of keys that are kept under coherent policies represent sets. -/
theorem represents {hash : K → UInt64} {eq : K → K → Bool} {sup : Supply W}
    (hp : (Policies.ofKeys hash eq).Coherent) (hsup : sup.TakesBack) :
    Represents (behaviour eq) (.ofKeys hash eq) sup (serve (keyed hash eq sup))
      (Holds (.ofKeys hash eq)) where
  new := Holds.zero _
  serves q t m ht := by
    cases q with
    | insert k => exact (ht.serves_insertIfNew hp hsup k).answer.determined fun _ h => ⟨m, rfl, h⟩
    | insertMany ks =>
        exact (serves_insertMany hp hsup ht ks).answer.determined
          fun _ ⟨n, hn, h⟩ => ⟨_, ⟨n, hn, rfl⟩, h⟩
    | contains q => exact (ht.serves_contains hp hsup q).answer.determined fun _ h => h.elim
    | get q => exact (ht.serves_find? hp hsup q).answer.determined fun _ h => h.elim
    | erase q => exact (serves_erase hp hsup ht q).answer.determined fun _ h => h.elim
    | take q => exact (ht.serves_take? hp hsup q).answer.determined fun _ h => h.elim
    | clear => exact (ht.serves_clear hp hsup).answer.determined fun _ h => h.elim
    | size => exact (ht.serves_size _).determined fun _ h => h.elim
    | iterate => exact (ht.serves_iterator _).determined fun _ h => h.elim

end HashSet

/-! ## Runs -/

namespace HashMap

/-- A pair that is not inserted because its key is there changes at most how many buckets the
table has. -/
theorem serves_insertIfNew_resident {hash : K → UInt64} {eq : K → K → Bool} {sup : Supply W}
    {t : Table (K × T)} {m : Bindings (K × T) K}
    (hp : (Policies.ofPairs (T := T) hash eq).Coherent) (hsup : sup.TakesBack)
    (ht : t.StandsFor (.ofPairs hash eq) (Holds (.ofPairs hash eq)) m) {k : K}
    (hk : (m k).isSome = true) (u : T) :
    Serves (.ofPairs hash eq) sup t (insertIfNew (paired hash eq sup) k u)
      (fun b t' => b = false ∧ t.Widened t') t.Widened := by
  obtain ⟨v, hv, hkey⟩ := ht.reads.isSome_iff.1 hk
  exact (Table.serves_insertNew!_resident hp hsup ht.kept (v := (k, u)) hv hkey).map

end HashMap

/-- If the equality of keys is an equivalence and equal keys hash alike, then whatever is done with
a number of maps, copies of them among them, answers what finite maps answer, and leaves tables
that stand for these maps; and where a pair is not inserted because its key is there, nothing
happens but that the table may get more buckets. What is done with sets answers what finite sets
answer. What panics is denied storage that it asks for. -/
theorem Collection.bound_after {hash : K → UInt64} {eq : K → K → Bool}
    (hp : (Policies.ofKeys hash eq).Coherent) {sup : Supply W} (hsup : sup.TakesBack) (w : W) :
    (∀ es : List (Event (HashMap.Request K T)), ∃ h,
      (HashMap.behaviour eq).Runs
        (DeniedAfter (paired hash eq sup) (HashMap.serve (paired hash eq sup)) w) [] .empty es
        (run (paired hash eq sup) (HashMap.serve (paired hash eq sup)) es (.ofWorld w)).1 h
      ∧ (run (paired hash eq sup) (HashMap.serve (paired hash eq sup)) es (.ofWorld w)).2.StandsFor
        (.ofPairs hash eq) (Holds (.ofPairs hash eq)) h
      ∧ ∀ i t m,
        (run (paired hash eq sup) (HashMap.serve (paired hash eq sup)) es (.ofWorld w)).2.table? i
          = some t → h.at? i = some m → ∀ k u, (m k).isSome = true →
          Serves (.ofPairs hash eq) sup t (HashMap.insertIfNew (paired hash eq sup) k u)
            (fun b t' => b = false ∧ t.Widened t') t.Widened)
    ∧ ∀ es : List (Event (HashSet.Request K)), ∃ h,
      (HashSet.behaviour eq).Runs
        (DeniedAfter (keyed hash eq sup) (HashSet.serve (keyed hash eq sup)) w) [] .empty es
        (run (keyed hash eq sup) (HashSet.serve (keyed hash eq sup)) es (.ofWorld w)).1 h
      ∧ (run (keyed hash eq sup) (HashSet.serve (keyed hash eq sup)) es (.ofWorld w)).2.StandsFor
        (.ofKeys hash eq) (Holds (.ofKeys hash eq)) h := by
  refine ⟨fun es => ?_, fun es => ?_⟩
  · have hp' : (Policies.ofPairs (T := T) hash eq).Coherent := hp.ofPairs
    obtain ⟨h, hruns, hstands⟩ := (HashMap.represents hp' hsup).run hp' hsup w es
    refine ⟨h, hruns, hstands, fun i t m hi hm k u hk => ?_⟩
    obtain ⟨m', hm', ht⟩ := hstands.exists_at? hi
    obtain rfl := Option.some.inj (hm'.symm.trans hm)
    exact HashMap.serves_insertIfNew_resident hp' hsup ht hk u
  · exact (HashSet.represents hp hsup).run hp hsup w es

/-- Numbers are keys and equal if they end in the same two digits. A key that is there already is
offered to a table that has to grow for it, and what is done with a copy stays there. -/
theorem Collection.bound_after_growth :
    ∃ (hash : Nat → UInt64) (eq : Nat → Nat → Bool) (sup : Supply Unit)
      (es : List (Event (HashMap.Request Nat Nat))) (h : Shelf (Bindings (Nat × Nat) Nat)),
      hash = (fun k => (k % 100).toUInt64) ∧ eq = (fun a b => a % 100 == b % 100)
      ∧ sup = .unlimited 1024 8 8 ∧ (Policies.ofKeys hash eq).Coherent ∧ sup.TakesBack
      ∧ es = [.create 0, .on 0 (.insertMany ((List.range 53).map fun k => (k, 2 * k))),
        .on 0 (.insert 107 7), .copy 0, .on 1 (.take 207), .on 0 (.get 7), .on 0 (.takeEntry 307),
        .on 1 .size]
      ∧ (HashMap.behaviour eq).Runs
        (DeniedAfter (paired hash eq sup) (HashMap.serve (paired hash eq sup)) ()) [] .empty es
        [.ok (.created 0), .ok (.answered (some .done)), .ok (.answered (some (.second (some 14)))),
          .ok (.copied (some 1)), .ok (.answered (some (.second (some 7)))),
          .ok (.answered (some (.second (some 7)))),
          .ok (.answered (some (.element (some (7, 7))))), .ok (.answered (some (.number 52)))] h
      ∧ ((run (paired hash eq sup) (HashMap.serve (paired hash eq sup)) es (.ofWorld ())).2.table?
        0).map (fun t => (t.bucketCount, t.size)) = some (97, 52) := by
  have hp : (Policies.ofKeys (fun k => (k % 100).toUInt64)
      fun a b : Nat => a % 100 == b % 100).Coherent :=
    .of_iff (· % 100) (fun _ _ => beq_iff_eq) fun _ _ h => congrArg Nat.toUInt64 h
  have hsup : (.unlimited 1024 8 8 : Supply Unit).TakesBack := Supply.takesBack_unlimited 1024 8 8
  obtain ⟨h, hruns, -⟩ := (bound_after (T := Nat) hp hsup ()).1
    [.create 0, .on 0 (.insertMany ((List.range 53).map fun k => (k, 2 * k))),
        .on 0 (.insert 107 7), .copy 0, .on 1 (.take 207), .on 0 (.get 7), .on 0 (.takeEntry 307),
        .on 1 .size]
  refine ⟨_, _, _, _, h, rfl, rfl, rfl, hp, hsup, rfl, ?_, by decide +kernel⟩
  refine Eq.mp (congrArg (fun rs => Behaviour.Runs _ _ _ _ _ rs _) ?_) hruns
  decide +kernel

end SeparateChaining
