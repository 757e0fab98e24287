import SeparateChaining.Proofs.Contract.Heeding
import SeparateChaining.Proofs.Determined
import SeparateChaining.Proofs.Positions
import SeparateChaining.Proofs.Record.Trace

/-!
# Where an insertion puts its element

An insertion that succeeds has made room first, as a request for one
more element does. On the table that this left it sought the key of the
value: `Readied` says which answers it was given on the way. Foreign
code may answer as it likes, and the same question differently each
time, so what is found is told by the answers (`Scan`), and by the
policies only where these speak through it (`Scan.find?_eq`). The new
element then stands between two parts of its home chain, and nothing
else has changed (`Gains`): at the head, or directly after the element
that was found.
-/

namespace SeparateChaining

variable {V K W : Type}

namespace Table

/-! ## Seeking -/

/-- How the seeking of `q` went along a chain, from one world to another: which answers were given
on the way, and at which element one of them was that the keys are equal. -/
inductive Scan (env : Environment V K W) (seen : Table V) (hash : UInt64) (q : K) :
    W → List (Element V) → Option (Element V) → W → Prop
  | ended {w : W} : Scan env seen hash q w [] none w
  | passed {w w' : W} {e : Element V} {es : List (Element V)} {found : Option (Element V)}
      (other : e.hash ≠ hash) (rest : Scan env seen hash q w es found w') :
      Scan env seen hash q w (e :: es) found w'
  | unequal {w w₁ w₂ w' : W} {e : Element V} {es : List (Element V)} {k : K}
      {found : Option (Element V)} (same : e.hash = hash)
      (key : env.extract seen e.value w = .ok k w₁)
      (answer : env.keyEq seen k q w₁ = .ok false w₂)
      (rest : Scan env seen hash q w₂ es found w') : Scan env seen hash q w (e :: es) found w'
  | equal {w w₁ w' : W} {e : Element V} {es : List (Element V)} {k : K} (same : e.hash = hash)
      (key : env.extract seen e.value w = .ok k w₁)
      (answer : env.keyEq seen k q w₁ = .ok true w') :
      Scan env seen hash q w (e :: es) (some e) w'

variable {env : Environment V K W} {t m seen : Table V} {f : Option Operation} {hash : UInt64}
  {q : K} {w w' : W} {es : List (Element V)} {found : Option (Element V)} {v : V}

theorem Scan.split {e : Element V} (h : Scan env seen hash q w es (some e) w') :
    ∃ xs ys, es = xs ++ e :: ys := by
  generalize hfound : some e = found at h
  induction h with
  | ended => cases hfound
  | @passed _ _ x _ _ _ _ ih | @unequal _ _ _ _ x _ _ _ _ _ _ _ ih =>
      obtain ⟨xs, ys, rfl⟩ := ih hfound
      exact ⟨x :: xs, ys, rfl⟩
  | equal =>
      cases hfound
      exact ⟨[], _, rfl⟩

/-- Where policies speak through the environment, the first element that meets the key is found. -/
theorem Scan.find?_eq {p : Policies V K} (henv : env.Speaks p) (hhash : hash = p.hash q)
    (h : Scan env seen hash q w es found w') : found = es.find? (p.meets q) := by
  induction h with
  | ended => rfl
  | @passed _ _ e _ _ other _ ih =>
      have hmeets : p.meets q e = false := by
        rw [Policies.meets, ← hhash, beq_eq_false_iff_ne.2 other, Bool.false_and]
      rw [List.find?_cons, hmeets]
      exact ih
  | @unequal _ _ _ _ e _ _ _ same key answer _ ih =>
      obtain rfl := henv.extract key
      have hmeets : p.meets q e = false := by
        rw [Policies.meets, Policies.hasKey, ← henv.keyEq answer, Bool.and_false]
      rw [List.find?_cons, hmeets]
      exact ih
  | @equal _ _ _ e _ _ same key answer =>
      obtain rfl := henv.extract key
      have hmeets : p.meets q e = true := by
        rw [Policies.meets, Policies.hasKey, ← henv.keyEq answer, same, hhash, beq_self_eq_true]
        rfl
      rw [List.find?_cons, hmeets]

/-- A node matches by the answers that are given about it. -/
theorem of_nodeMatches_ok {n : Node V} {b : Bool} {s : Running V W}
    (h : nodeMatches env hash q n ⟨seen, w⟩ = .ok b s) :
    (n.hash ≠ hash ∧ b = false ∧ s = ⟨seen, w⟩)
      ∨ (n.hash = hash ∧ ∃ k w₁ w₂, env.extract seen n.value w = .ok k w₁
        ∧ env.keyEq seen k q w₁ = .ok b w₂ ∧ s = ⟨seen, w₂⟩) := by
  unfold nodeMatches at h
  by_cases hhash : n.hash = hash
  · rw [if_pos hhash] at h
    obtain ⟨k, s₁, hextract, hrest⟩ := Op.of_run_bind_ok h
    obtain ⟨w₁, hk, rfl⟩ := Op.of_run_call_ok hextract
    obtain ⟨w₂, hb, rfl⟩ := Op.of_run_call_ok hrest
    exact Or.inr ⟨hhash, k, w₁, w₂, hk, hb, rfl⟩
  · rw [if_neg hhash] at h
    cases h
    exact Or.inl ⟨hhash, rfl, rfl⟩

/-- The loop over a chain is such a scan, by induction on the nodes met. -/
theorem scan_of_seek {cells : List (Cell V)} {r : Option ArenaKey} {s : Running V W}
    (h : forIn cells none (seekAt env hash q) ⟨seen, w⟩ = .ok r s) :
    ∃ found w', Scan env seen hash q w (cells.map .ofCell) found w' ∧ r = found.map (·.key)
      ∧ s = ⟨seen, w'⟩ := by
  induction cells generalizing w with
  | nil =>
      cases h
      exact ⟨none, w, .ended, rfl, rfl⟩
  | cons cell cells ih =>
      rw [List.forIn_cons] at h
      unfold seekAt at h
      rw [bind_assoc] at h
      obtain ⟨b, s₁, hmatch, hrest⟩ := Op.of_run_bind_ok h
      rcases of_nodeMatches_ok hmatch with ⟨hother, rfl, rfl⟩ | ⟨hsame, k, w₁, w₂, hk, hb, rfl⟩
      · obtain ⟨found, w', hscan, hr, hs⟩ := ih hrest
        exact ⟨found, w', .passed hother hscan, hr, hs⟩
      · cases b with
        | true =>
            cases hrest
            exact ⟨_, w₂, .equal hsame hk hb, rfl, rfl⟩
        | false =>
            obtain ⟨found, w', hscan, hr, hs⟩ := ih hrest
            exact ⟨found, w', .unequal hsame hk hb hscan, hr, hs⟩

/-- An insertion of `v` has made room, which led from `t` to `m`, and has sought the key of `v` on
its home chain there. -/
inductive Readied (env : Environment V K W) (op : Operation) (t : Table V) (w : W) (v : V) :
    Table V → K → UInt64 → Option (Element V) → W → Prop
  | intro {m : Table V} {q : K} {hash : UInt64} {found : Option (Element V)} {w₁ w₂ w₃ w₄ : W}
      (room : rehash env (t.size + 1) ⟨t, w⟩ = .ok (.ok ()) ⟨m, w₁⟩)
      (key : env.extract (m.fencedBy (some op)) v w₁ = .ok q w₂)
      (hashed : env.hash (m.fencedBy (some op)) q w₂ = .ok hash w₃)
      (scan : Scan env (m.fencedBy (some op)) hash q w₃ (m.homeRow hash) found w₄) :
      Readied env op t w v m q hash found w₄

theorem readied_of_prepare (ht : t.Sound) {op : Operation} {r : UInt64 × Option ArenaKey}
    {s : Running V W} (h : prepare env op v ⟨t, w⟩ = .ok (.ok r) s) :
    ∃ m q found w', Readied env op t w v m q r.1 found w' ∧ r.2 = found.map (·.key)
      ∧ s = ⟨m, w'⟩ ∧ m.Sound ∧ m = t.roomFor (t.size + 1) := by
  rw [prepare_eq] at h
  obtain ⟨a, ⟨m, w₁⟩, hroom, hrest⟩ := Op.of_run_bind_ok h
  rw [makeRoom, Environment.holding] at hroom
  replace hroom : rehash env (t.size + 1) ⟨t, w⟩ = .ok a ⟨m, w₁⟩ := (Op.of_run_onPanic_ok hroom :)
  rcases a with e | u
  · obtain ⟨_, _, -, hreturn⟩ := Op.of_run_bind_ok hrest
    cases hreturn
  · obtain ⟨hm, hmade⟩ := ht.madeRoom? (show t.madeRoom? env w = some m by
      rw [Table.madeRoom?, hroom])
    obtain ⟨r', s', hseek, hreturn⟩ := Op.of_run_bind_ok hrest
    cases hreturn
    rw [seekHeld, Environment.holding] at hseek
    obtain ⟨s₁, hbody, rfl⟩ := Op.of_run_fenced_ok hm.fence (Op.of_run_onPanic_ok hseek)
    obtain ⟨q, s₂, hextract, hsearch⟩ := Op.of_run_bind_ok hbody
    obtain ⟨w₂, hq, rfl⟩ := Op.of_run_call_ok hextract
    obtain ⟨hash, s₃, hhashOp, hchain⟩ := Op.of_run_bind_ok hsearch
    obtain ⟨w₃, hhash, rfl⟩ := Op.of_run_call_ok hhashOp
    rw [Op.run_query_bind (home_fencedBy hm.wellFormed hash), Op.run_read_bind,
      Chains.forFrom_eq_forIn] at hchain
    obtain ⟨k, s₄, hloop, hend⟩ := Op.of_run_bind_ok hchain
    obtain ⟨found, w₄, hscan, rfl, rfl⟩ := scan_of_seek hloop
    cases hend
    exact ⟨m, q, found, w₄, .intro hroom hq hhash hscan, rfl,
      congrArg (Running.mk · w₄) (fencedBy_eq hm.fence), hm, hmade⟩

/-! ## Linking -/

/-- In `t'` the new element `e` stands between `xs` and `ys`, which in `m` were all of its home
chain, and nothing else has changed. -/
structure Gains (m : Table V) (xs : List (Element V)) (e : Element V) (ys : List (Element V))
    (t' : Table V) : Prop where
  before : m.homeRow e.hash = xs ++ ys
  after : t'.homeRow e.hash = xs ++ e :: ys
  others : ∀ i, i ≠ m.chains.buckets.home e.hash → t'.chains.row i = m.chains.row i
  new : m.chains.element? e.key = none
  read : t'.get (t'.cursor (some e.key)) = .ok e.value
  size : t'.size = m.size + 1
  bucketCount : t'.bucketCount = m.bucketCount
  growths : t'.growths = m.growths
  id : t'.id = m.id

theorem gains_linked (hm : m.Sound) {xs ys : List (Element V)} (hrow : m.homeRow hash = xs ++ ys)
    (v : V) :
    m.Gains xs
      ⟨m.linkedKey (Chains.placeAfter (m.chains.buckets.home hash) xs) v hash, v, hash⟩ ys
      (m.linked (Chains.placeAfter (m.chains.buckets.home hash) xs) v hash) := by
  have hrows := (hm.wellFormed.insertAt hrow v rfl).row_eq
  have hhome := Chains.home_insertAt (c := m.chains)
    (Chains.placeAfter (m.chains.buckets.home hash) xs) v hash hash
  refine ⟨hrow, ?_, fun i hi => ?_, Chains.element?_insertAt_fst .., get_linked .., ?_,
    Chains.bucketCount_insertAt .., rfl, rfl⟩
  · show (m.chains.insertAt _ v hash).2.row ((m.chains.insertAt _ v hash).2.buckets.home hash) = _
    rw [hhome, hrows, Function.update_self]
    rfl
  · show (m.chains.insertAt _ v hash).2.row i = _
    rw [hrows, Function.update_of_ne hi]
  · exact size_linked ..

theorem of_link_ok (hm : m.Sound) {p : Chains.Place} {c : Cursor} {s : Running V W}
    (h : link env p v hash ⟨m.fencedBy f, w⟩ = .ok (.ok c) s) :
    c = m.cursor (some (m.linkedKey p v hash)) ∧ s.table.fencedBy none = m.linked p v hash := by
  unfold link at h
  obtain ⟨u, w₁, -, hgrant⟩ := ((Op.leaves_query _ _).onPanic _).of_run_bind_ok h
  have hleaves : Op.Leaves (m.fencedBy f) (grantNode env v ⟨m.fencedBy f, w₁⟩) :=
    (keeps_grantNode (Contract.obeyed_anything env _) v).leaves hm.wellFormed w₁
  obtain ⟨r, w₂, -, hlink⟩ := hleaves.of_run_bind_ok hgrant
  rcases r with e | u
  · cases hlink
  · cases hlink
    exact ⟨rfl, fencedBy_eq (t := m.linked p v hash) hm.fence⟩

/-! ## Insertion -/

/-- What an insertion of `v` in any case has come to that handed over `c`: behind the element that
was found, or else at the head, its own has been linked. -/
inductive AddedAt (env : Environment V K W) (t : Table V) (w : W) (v : V) :
    Cursor → Table V → Prop
  | intro {m t' : Table V} {q : K} {hash : UInt64} {found : Option (Element V)} {w' : W}
      {k : ArenaKey} {xs ys : List (Element V)}
      (readied : Readied env .insertAny t w v m q hash found w')
      (room : m = t.roomFor (t.size + 1))
      (behind : xs.getLast? = found) (gains : m.Gains xs ⟨k, v, hash⟩ ys t')
      (size : t'.size = t.size + 1) : AddedAt env t w v (t'.cursor (some k)) t'

/-- What an insertion of `v`, if it is new, has come to: nothing was found and it has been linked at
the head, or an element was found and that is named. -/
inductive PlacedAt (env : Environment V K W) (t : Table V) (w : W) (v : V) :
    Placement V → Table V → Prop
  | linked {m t' : Table V} {q : K} {hash : UInt64} {w' : W} {k : ArenaKey}
      {ys : List (Element V)} (readied : Readied env .insertNew t w v m q hash none w')
      (room : m = t.roomFor (t.size + 1))
      (gains : m.Gains [] ⟨k, v, hash⟩ ys t') (size : t'.size = t.size + 1) :
      PlacedAt env t w v (.linked (t'.cursor (some k))) t'
  | resident {m : Table V} {q : K} {hash : UInt64} {w' : W} {e : Element V}
      (readied : Readied env .insertNew t w v m q hash (some e) w')
      (room : m = t.roomFor (t.size + 1)) (there : e ∈ m.homeRow hash)
      (read : m.get (m.cursor (some e.key)) = .ok e.value) (size : m.size = t.size) :
      PlacedAt env t w v (.resident (m.cursor (some e.key)) v) m

theorem Readied.split {op : Operation} {e : Element V}
    (h : Readied env op t w v m q hash (some e) w') :
    ∃ xs ys, m.homeRow hash = xs ++ e :: ys := by
  cases h with
  | intro room key hashed scan => exact scan.split

/-- Under policies it is settled what was found. -/
theorem Readied.determined {p : Policies V K} (henv : env.Speaks p) {op : Operation}
    (h : Readied env op t w v m q hash found w') :
    q = p.extract v ∧ hash = p.hash q ∧ found = (m.homeRow hash).find? (p.meets q) := by
  cases h with
  | intro room key hashed scan =>
      exact ⟨henv.extract key, henv.hash hashed, scan.find?_eq henv (henv.hash hashed)⟩

theorem addedAt_of_insertAny (ht : t.Sound) {c : Cursor} {s : Running V W}
    (h : insertAny env v ⟨t, w⟩ = .ok (.ok c) s) : AddedAt env t w v c s.table := by
  rw [insertAny_eq] at h
  obtain ⟨r, s₁, hprepare, hplace⟩ := Op.of_run_bind_ok h
  rcases r with e | ⟨hash, k⟩
  · cases hplace
  · obtain ⟨m, q, found, w', hready, rfl, rfl, hm, hroom⟩ := readied_of_prepare ht hprepare
    obtain ⟨s₂, hlink, rfl⟩ := Op.of_run_fenced_ok hm.fence hplace
    have hsize : m.size = t.size := hroom ▸ (widened_roomFor ht.wellFormed _).size
    obtain ⟨xs, ys, hrow, hlast, hlink⟩ : ∃ xs ys, m.homeRow hash = xs ++ ys
        ∧ xs.getLast? = found ∧ link env (Chains.placeAfter (m.chains.buckets.home hash) xs) v hash
          ⟨m.fencedBy (some .insertAny), w'⟩ = .ok (.ok c) s₂ := by
      cases found with
      | none => exact ⟨[], m.homeRow hash, rfl, rfl, hlink⟩
      | some e =>
          obtain ⟨xs, ys, hrow⟩ := hready.split
          refine ⟨xs ++ [e], ys, by rw [hrow, List.append_assoc]; rfl, List.getLast?_concat, ?_⟩
          rw [Chains.placeAfter_concat]
          exact hlink
    obtain ⟨rfl, htable⟩ := of_link_ok hm hlink
    have hgains := gains_linked hm hrow v
    rw [htable]
    exact .intro hready hroom hlast hgains (hgains.size.trans (congrArg (· + 1) hsize))

theorem placedAt_of_insertNew (ht : t.Sound) {r : Placement V} {s : Running V W}
    (h : insertNew env v ⟨t, w⟩ = .ok (.ok r) s) : PlacedAt env t w v r s.table := by
  rw [insertNew_eq] at h
  obtain ⟨a, s₁, hprepare, hplace⟩ := Op.of_run_bind_ok h
  rcases a with e | ⟨hash, k⟩
  · cases hplace
  · obtain ⟨m, q, found, w', hready, rfl, rfl, hm, hroom⟩ := readied_of_prepare ht hprepare
    have hsize : m.size = t.size := hroom ▸ (widened_roomFor ht.wellFormed _).size
    cases found with
    | some e =>
        cases hplace
        obtain ⟨xs, ys, hrow⟩ := hready.split
        have hmem : e ∈ m.homeRow hash := by simp [hrow]
        exact .resident hready hroom hmem (get_cursor (hm.wellFormed.mem_iff.1 hmem).1) hsize
    | none =>
        obtain ⟨s₂, hbody, rfl⟩ := Op.of_run_fenced_ok hm.fence hplace
        rw [Op.run_read_bind] at hbody
        obtain ⟨b, s₃, hlink, hreturn⟩ := Op.of_run_bind_ok hbody
        rcases b with e | c
        · cases hreturn
        · cases hreturn
          obtain ⟨rfl, htable⟩ := of_link_ok hm hlink
          have hgains := gains_linked hm (List.nil_append (m.homeRow hash)).symm v
          rw [htable]
          exact .linked hready hroom hgains (hgains.size.trans (congrArg (· + 1) hsize))

/-- Insertions fail only by a refusal of what they request or a panic of the environment. -/
theorem run_insertAny (env : Environment V K W) (ht : t.Sound) (v : V) (w : W) :
    match insertAny env v ⟨t, w⟩ with
    | .ok (.ok c) s => AddedAt env t w v c s.table
    | .ok (.error e) _ => InsertionRefused env w t .insertAny v e
    | .error x _ => env.Raises x := by
  have hkeeps := keeps_insertAny (t := t) (Contract.obeyed_wild_of env (fun _ h => h) fun _ => True)
    ⟨fun _ _ _ _ => trivial, fun _ _ _ _ _ _ => trivial⟩ (fun _ _ _ _ _ _ _ _ _ => trivial) v
  rcases hrun : insertAny env v ⟨t, w⟩ with ⟨e | c, s⟩ | ⟨x, s⟩
  · exact refused_of_insertAny ht.wellFormed ht.fence hrun
  · exact addedAt_of_insertAny ht hrun
  · obtain ⟨t', -, -, -, hraises⟩ := hkeeps.of_run_error ht.fence ht.wellFormed trivial hrun
    exact hraises

theorem run_insertNew (env : Environment V K W) (ht : t.Sound) (v : V) (w : W) :
    match insertNew env v ⟨t, w⟩ with
    | .ok (.ok r) s => PlacedAt env t w v r s.table
    | .ok (.error e) _ => InsertionRefused env w t .insertNew v e
    | .error x _ => env.Raises x := by
  have hkeeps := keeps_insertNew (t := t) (Contract.obeyed_wild_of env (fun _ h => h) fun _ => True)
    ⟨fun _ _ _ _ => trivial, fun _ _ _ _ _ _ => trivial⟩ (fun _ _ _ _ _ _ _ _ _ => trivial) v
  rcases hrun : insertNew env v ⟨t, w⟩ with ⟨e | r, s⟩ | ⟨x, s⟩
  · exact refused_of_insertNew ht.wellFormed ht.fence hrun
  · exact placedAt_of_insertNew ht hrun
  · obtain ⟨t', -, -, -, hraises⟩ := hkeeps.of_run_error ht.fence ht.wellFormed trivial hrun
    exact hraises

end Table

/-! ## Runs -/

namespace Store

/-- After any run, whatever foreign code answers: an insertion that succeeds has made room for one
more element, has gone by what it was told along the home chain, and has changed nothing but to link
its element, right behind the first that was said to be equal or at the head. If the answers are
those of policies, that is the first whose cached hash and key meet the new key. -/
theorem inserted_after (past : Environment V K W) (w₀ : W) (acts : List (Action V K)) {i : Nat}
    {t : Table V} (ht : ((ofWorld w₀ : Store V W).after past acts).table? i = some t)
    (env : Environment V K W) (v : V) (w : W) :
    (match Table.insertAny env v ⟨t, w⟩ with
      | .ok (.ok c) s => Table.AddedAt env t w v c s.table
      | .ok (.error e) _ => Table.InsertionRefused env w t .insertAny v e
      | .error x _ => env.Raises x)
    ∧ (match Table.insertNew env v ⟨t, w⟩ with
      | .ok (.ok r) s => Table.PlacedAt env t w v r s.table
      | .ok (.error e) _ => Table.InsertionRefused env w t .insertNew v e
      | .error x _ => env.Raises x)
    ∧ (∀ c s, Table.insertAny! env v ⟨t, w⟩ = .ok c s → Table.AddedAt env t w v c s.table)
    ∧ (∀ r s, Table.insertNew! env v ⟨t, w⟩ = .ok r s → Table.PlacedAt env t w v r s.table)
    ∧ ∀ p : Policies V K, env.Speaks p → ∀ op m q hash found w',
      Table.Readied env op t w v m q hash found w' →
        q = p.extract v ∧ hash = p.hash q ∧ found = (m.homeRow hash).find? (p.meets q) := by
  have hsound := (((sound_ofWorld w₀).after past acts).table i t ht).1
  exact ⟨Table.run_insertAny env hsound v w, Table.run_insertNew env hsound v w,
    fun c s h => Table.addedAt_of_insertAny hsound (Op.of_run_infallible_ok h),
    fun r s h => Table.placedAt_of_insertNew hsound (Op.of_run_infallible_ok h),
    fun p henv _ _ _ _ _ _ hready => hready.determined henv⟩

/-- A full table has 70 and 71 on one chain. Room for one more turns them round, so it is 71 that
the key of 72 meets first: a value that is inserted in any case goes behind it, and one that is to
be new is turned away. -/
theorem inserted_after_full :
    ∃ (p : Policies Nat Nat) (env : Environment Nat Nat Unit) (t : Table Nat),
      p = ⟨(· / 10), .ofNat, fun a b => decide (a ≤ b)⟩
      ∧ env = p.environment (.unlimited 4096 8 8)
      ∧ ((ofWorld ()).after env (.create 0 :: .on 0 (.insertAny 70) :: .on 0 (.insertAny 71) ::
        (List.range 51).map fun k => .on 0 (.insertAny (10 * (k + 8))))).table? 0 = some t
      ∧ (t.homeRow 7).map (·.value) = [70, 71]
      ∧ (∃ c s, Table.insertAny env 72 ⟨t, ()⟩ = .ok (.ok c) s
        ∧ Table.AddedAt env t () 72 c s.table ∧ (s.table.homeRow 7).map (·.value) = [71, 72, 70])
      ∧ ∃ r s, Table.insertNew env 72 ⟨t, ()⟩ = .ok (.ok r) s
        ∧ Table.PlacedAt env t () 72 r s.table ∧ s.table.get r.cursor = .ok 71 := by
  generalize hp : (Policies.mk (· / 10) .ofNat (fun a b => decide (a ≤ b)) : Policies Nat Nat) = p
  generalize henv : p.environment (.unlimited 4096 8 8 : Supply Unit) = env
  have hfull : (((ofWorld ()).after env (.create 0 :: .on 0 (.insertAny 70) ::
      .on 0 (.insertAny 71) ::
        (List.range 51).map fun k => .on 0 (.insertAny (10 * (k + 8))))).table? 0).map (fun t =>
        ((t.homeRow 7).map (·.value),
        (do
          let r ← Table.insertAny env 72
          let t ← .read id
          return r.toOption.map fun _ => (t.homeRow 7).map (·.value)
          : Op Unit Nat _).run' ⟨t, ()⟩,
        (do
          let r ← Table.insertNew env 72
          let t ← .read id
          return r.toOption.bind fun r => (t.get r.cursor).toOption
          : Op Unit Nat _).run' ⟨t, ()⟩))
      = some ([70, 71], some (some [71, 72, 70]), some (some 71)) := by
    subst henv hp
    decide +kernel
  obtain ⟨t, ht, hcomputed⟩ := Option.map_eq_some_iff.1 hfull
  simp only [Prod.mk.injEq] at hcomputed
  obtain ⟨hrow, hany, hnew⟩ := hcomputed
  obtain ⟨hadded, hplaced, -⟩ := inserted_after env () _ ht env 72 ()
  refine ⟨p, env, t, rfl, henv.symm, ht, hrow, ?_, ?_⟩
  · obtain ⟨s', hrun⟩ := Op.of_run'_eq hany
    obtain ⟨r, s, hrun, hread⟩ := Op.of_run_bind_ok hrun
    injection hread with hleft
    rw [hrun] at hadded
    rcases r with e | c
    · cases hleft
    · exact ⟨c, s, hrun, hadded, Option.some.inj hleft⟩
  · obtain ⟨s', hrun⟩ := Op.of_run'_eq hnew
    obtain ⟨r, s, hrun, hread⟩ := Op.of_run_bind_ok hrun
    injection hread with hget
    rw [hrun] at hplaced
    rcases r with e | r
    · cases hget
    · refine ⟨r, s, hrun, hplaced, ?_⟩
      change (s.table.get r.cursor).toOption = some 71 at hget
      rcases hat : s.table.get r.cursor with x | v
      · rw [hat] at hget
        cases hget
      · rw [hat] at hget
        rw [Option.some.inj hget]

end Store

end SeparateChaining
