import SeparateChaining.Proofs.Positions
import SeparateChaining.Proofs.Table.Failure

/-!
# Erasing while walking

Erasing at a cursor takes one element off the traversal and hands over
the cursor that moving on would have led to. That cursor is as good
afterwards, so a walk may go on from it. `Table.sift` is the loop that
does so: from the first element on, it erases where it is told to and
moves on where it is not. What carries it from one round to the next is
that the cursor stands before the elements still to come, and these are
as they were (`pass_spec`). So its rounds visit the elements that were
there at first, in their order, whatever has become of those before
(`sift_spec`).
-/

namespace SeparateChaining

variable {V K W : Type}

namespace Table

/-! ## One element -/

/-- The element that `k` names is gone from its place in the traversal, and all else is as it
was. -/
structure Loses (t : Table V) (k : ArenaKey) (t' : Table V) : Prop where
  elements : ∃ xs e ys, e.key = k ∧ t.chains.elements = xs ++ e :: ys
    ∧ t'.chains.elements = xs ++ ys
  row : ∀ i, t'.chains.row i = (t.chains.row i).filter fun e => e.key ≠ k
  bucketCount : t'.bucketCount = t.bucketCount
  growths : t'.growths = t.growths
  id : t'.id = t.id

variable {env : Environment V K W} {t : Table V} {c : Cursor} {k : ArenaKey} {n : Node V}
  {e : Element V} {xs ms ys : List (Element V)}

theorem sound_without (ht : t.Sound) (k : ArenaKey) : (t.without k).Sound :=
  ⟨wellFormed_without ht.wellFormed k, ht.fence⟩

theorem cell_linkTo (hwf : t.chains.WellFormed) (hsplit : t.chains.elements = xs ++ e :: ys) :
    ∃ n, t.cell (t.cursor (some e.key)) = .ok (e.key, n) ∧ n.value = e.value := by
  have he : e ∈ t.chains.elements := by simp [hsplit]
  obtain ⟨n, hn, hvalue, -⟩ := hwf.mem_elements_iff_get?.1 he
  exact ⟨n, cell_eq_ok_iff.2 ⟨rfl, rfl, rfl, hn⟩, hvalue⟩

/-- The element at a cursor has its place in the traversal. -/
theorem exists_split (hwf : t.chains.WellFormed) (hcell : t.cell c = .ok (k, n)) :
    ∃ xs ys, t.chains.elements = xs ++ ⟨k, n.value, n.hash⟩ :: ys := by
  have he : t.chains.element? k = some ⟨k, n.value, n.hash⟩ :=
    Chains.element?_eq_some.2 ⟨n, (element?_of_cell hcell).2, rfl⟩
  exact List.append_of_mem (hwf.mem_elements_iff.2 he)

theorem elements_without (hwf : t.chains.WellFormed)
    (hsplit : t.chains.elements = xs ++ e :: ys) (hkey : e.key = k) :
    (t.without k).chains.elements = xs ++ ys := by
  subst hkey
  have hnodup := hwf.nodup_elements
  rw [hsplit] at hnodup
  have hall : (t.without e.key).chains.elements
      = t.chains.elements.filter fun x => x.key ∉ [e.key] := hwf.elements_withoutAll [e.key]
  simp only [List.mem_singleton] at hall
  rw [hall, hsplit]
  exact Chains.filter_key_ne hnodup

theorem loses_without (hwf : t.chains.WellFormed) (hcell : t.cell c = .ok (k, n)) :
    t.Loses k (t.without k) := by
  obtain ⟨xs, ys, hsplit⟩ := exists_split hwf hcell
  exact ⟨⟨xs, _, ys, rfl, hsplit, elements_without hwf hsplit rfl⟩, row_without hwf k,
    Chains.bucketCount_without k, rfl, rfl⟩

/-- The cursor after an element is as good without that element. -/
theorem next_without (hwf : t.chains.WellFormed) (hcell : t.cell c = .ok (k, n)) :
    ∃ next, t.next c = .ok next ∧ next = t.cursor (t.chains.successor k)
      ∧ (t.without k).get next = t.get next
      ∧ (next = (t.without k).endCursor ∨ ∃ cell, (t.without k).cell next = .ok cell) := by
  obtain ⟨xs, ys, hsplit⟩ := exists_split hwf hcell
  have hleft : (t.without k).chains.elements = xs ++ ys := elements_without hwf hsplit rfl
  refine ⟨_, by rw [Table.next, hcell]; rfl, rfl, ?_⟩
  rw [show t.chains.successor k = _ from hwf.successor_eq hsplit]
  cases ys with
  | nil => exact ⟨rfl, Or.inl rfl⟩
  | cons y ys =>
      have hsplit' : t.chains.elements = (xs ++ [⟨k, n.value, n.hash⟩]) ++ y :: ys := by
        rw [hsplit]
        simp
      obtain ⟨m, hm, hvalue⟩ := cell_linkTo hwf hsplit'
      obtain ⟨m', hm', hvalue'⟩ := cell_linkTo (wellFormed_without hwf k) hleft
      have hget' : (t.without k).get (t.cursor (some y.key)) = .ok m'.value :=
        congrArg (Except.map _) hm'
      have hget : t.get (t.cursor (some y.key)) = .ok m.value := congrArg (Except.map _) hm
      exact ⟨by rw [Chains.linkTo_cons, hget', hget, hvalue, hvalue'], Or.inr ⟨_, hm'⟩⟩

theorem erase_spec (env : Environment V K W) (ht : t.Sound) (hcell : t.cell c = .ok (k, n))
    (w : W) :
    match erase env c ⟨t, w⟩ with
    | .ok next s => next = t.cursor (t.chains.successor k) ∧ s.table = t.without k
    | .error p s => env.FailsOn (t.without k) n.value p ∧ s.table = t.without k := by
  cases hrun : erase env c ⟨t, w⟩ with
  | error p s =>
      have hcut := cutAt_of_erase ht.fence ht.wellFormed hcell hrun
      have htable : s.table = t.without k := hcut.table
      have hfails := hcut.panics
      rw [htable, fencedBy_eq (sound_without ht k).fence] at hfails
      exact ⟨hfails, htable⟩
  | ok next s =>
      have hspec := removeAt_spec env ht.fence ht.wellFormed .erase hcell w
      obtain ⟨⟨next', v⟩, ⟨t', w'⟩, hout, hrest⟩ := Op.of_run_bind_ok hrun
      rw [hout] at hspec
      obtain ⟨hnext, rfl⟩ : _ ∧ t' = t.without k := hspec
      obtain ⟨u, s', hdispose, hreturn⟩ := Op.of_run_bind_ok hrest
      have hleaves : s'.table = t.without k := by
        have hcall := Op.leaves_call (fun t => env.dispose t v) ⟨t.without k, w'⟩
        rwa [show Op.call _ _ = _ from hdispose] at hcall
      cases hreturn
      exact ⟨congrArg Prod.fst hnext, hleaves⟩

theorem remove_spec (env : Environment V K W) (ht : t.Sound) (hcell : t.cell c = .ok (k, n))
    (w : W) :
    match remove env c ⟨t, w⟩ with
    | .ok v s => v = n.value ∧ s.table = t.without k
    | .error p s => env.toSupply.Raises p ∧ s.table = t.without k := by
  have hspec := removeAt_spec env ht.fence ht.wellFormed .remove hcell w
  cases hout : removeAt env .remove c ⟨t, w⟩ with
  | error p s =>
      rw [hout] at hspec
      rw [remove, Op.run_bind_error hout]
      exact hspec
  | ok r s =>
      rw [hout] at hspec
      rw [remove, Op.run_bind_ok hout]
      exact ⟨congrArg Prod.snd hspec.1, hspec.2⟩

/-! ## Some of the elements -/

/-- One round of the loop, at an element whose value is `v`: the cursor to go on with. -/
def pass (env : Environment V K W) (chosen : Cursor → V → Bool) (c : Cursor) (v : V) :
    Op W V Cursor :=
  if chosen c v then erase env c else .query (·.next c)

/-- So many rounds of the loop from `c`, or fewer if they come to the end: what was visited, and
the cursor to go on with. -/
def sift (env : Environment V K W) (chosen : Cursor → V → Bool) :
    Nat → Cursor → Op W V (List (Cursor × V) × Cursor)
  | 0, c => return ([], c)
  | n + 1, c =>
    if c.isEnd then return ([], c)
    else do
      let v ← .query (·.get c)
      let (visited, last) ← sift env chosen n (← pass env chosen c v)
      return ((c, v) :: visited, last)

/-- What a visit to an element sees. -/
def visit (t : Table V) (e : Element V) : Cursor × V := (t.cursor (some e.key), e.value)

def picks (t : Table V) (chosen : Cursor → V → Bool) (e : Element V) : Bool :=
  chosen (t.cursor (some e.key)) e.value

/-- The table without those of `es` that are chosen. -/
def sifted (t : Table V) (chosen : Cursor → V → Bool) (es : List (Element V)) : Table V :=
  t.withoutAll (Chains.keysOf (es.filter (t.picks chosen)))

variable {chosen : Cursor → V → Bool}

theorem sound_sifted (ht : t.Sound) (es : List (Element V)) : (t.sifted chosen es).Sound :=
  ⟨(ht.wellFormed.withoutAll _).wellFormed, ht.fence⟩

theorem sifted_singleton (t : Table V) (chosen : Cursor → V → Bool) (e : Element V) :
    t.sifted chosen [e] = if t.picks chosen e then t.without e.key else t := by
  rw [sifted, List.filter_cons]
  split
  · rfl
  · rfl

theorem sifted_cons (t : Table V) (chosen : Cursor → V → Bool) (e : Element V)
    (es : List (Element V)) :
    t.sifted chosen (e :: es) = (t.sifted chosen [e]).sifted chosen es := by
  rw [sifted_singleton, sifted, List.filter_cons]
  split
  · rfl
  · rfl

/-- What stays of the elements that were gone through stands before the others. -/
theorem elements_sifted (ht : t.Sound) (chosen : Cursor → V → Bool)
    (hsplit : t.chains.elements = xs ++ (ms ++ ys)) :
    (t.sifted chosen ms).chains.elements = xs ++ (ms.filter (!t.picks chosen ·) ++ ys) := by
  induction ms generalizing t xs with
  | nil => exact hsplit
  | cons e ms ih =>
      have hstep : (t.sifted chosen [e]).chains.elements
          = (xs ++ [e].filter (!t.picks chosen ·)) ++ (ms ++ ys) := by
        rw [sifted_singleton, List.filter_singleton]
        by_cases hpick : t.picks chosen e = true
        · rw [if_pos hpick, hpick, elements_without ht.wellFormed hsplit rfl]
          simp
        · rw [if_neg hpick, hsplit, Bool.eq_false_iff.2 hpick]
          simp
      rw [sifted_cons, ih (sound_sifted ht _) hstep, ← List.singleton_append (l := ms),
        List.filter_append, List.append_assoc, List.append_assoc]
      rfl

/-! ## Rounds of the loop -/

/-- A round goes on to the element that came next, and takes the one it was at out if that is
chosen. -/
theorem pass_spec (env : Environment V K W) (chosen : Cursor → V → Bool) (ht : t.Sound)
    (hsplit : t.chains.elements = xs ++ e :: ys) (w : W) :
    match pass env chosen (t.cursor (some e.key)) e.value ⟨t, w⟩ with
    | .ok next s => next = t.cursor (Chains.linkTo ys) ∧ s.table = t.sifted chosen [e]
    | .error p s => t.picks chosen e = true ∧ s.table = t.sifted chosen [e]
        ∧ env.FailsOn s.table e.value p := by
  obtain ⟨n, hcell, hvalue⟩ := cell_linkTo ht.wellFormed hsplit
  rw [pass, sifted_singleton]
  by_cases hpick : t.picks chosen e = true
  · have hspec := erase_spec env ht hcell w
    rw [hvalue, ht.wellFormed.successor_eq hsplit] at hspec
    rw [show chosen _ e.value = true from hpick, if_pos rfl, if_pos hpick]
    rcases hrun : erase env (t.cursor (some e.key)) ⟨t, w⟩ with ⟨next, s⟩ | ⟨p, s⟩
    · rw [hrun] at hspec
      exact hspec
    · rw [hrun] at hspec
      obtain ⟨hfails, htable⟩ := hspec
      exact ⟨hpick, htable, htable ▸ hfails⟩
  · rw [show chosen _ e.value = false from Bool.eq_false_iff.2 hpick, if_neg Bool.false_ne_true,
      if_neg hpick, Op.run_query_ok (ht.wellFormed.step_eq hsplit).2]
    exact ⟨rfl, rfl⟩

/-- Rounds from the cursor before `ys` visit the first of them, each as it is met at first, and
leave those that are not chosen. If one panics, it was at an element that was chosen. The induction
is on the rounds: each starts from a table whose traversal ends in what is still to come. -/
theorem sift_spec (env : Environment V K W) (chosen : Cursor → V → Bool) (ht : t.Sound)
    (hsplit : t.chains.elements = xs ++ ys) (n : Nat) (w : W) :
    match sift env chosen n (t.cursor (Chains.linkTo ys)) ⟨t, w⟩ with
    | .ok (visited, last) s => visited = (ys.take n).map t.visit
        ∧ last = t.cursor (Chains.linkTo (ys.drop n)) ∧ s.table = t.sifted chosen (ys.take n)
    | .error p s => ∃ m < n, ∃ e, ys[m]? = some e ∧ t.picks chosen e = true
        ∧ s.table = t.sifted chosen (ys.take (m + 1)) ∧ env.FailsOn s.table e.value p := by
  induction n generalizing t xs ys w with
  | zero => exact ⟨rfl, rfl, rfl⟩
  | succ n ih =>
      cases ys with
      | nil => exact ⟨rfl, rfl, rfl⟩
      | cons e ys =>
          have hstep := pass_spec env chosen ht hsplit w
          have hget : t.get (t.cursor (some e.key)) = .ok e.value :=
            (ht.wellFormed.step_eq hsplit).1
          rw [Chains.linkTo_cons, sift, if_neg (by simp [Cursor.isEnd, cursor]),
            Op.run_query_bind hget]
          rcases hpass : pass env chosen (t.cursor (some e.key)) e.value ⟨t, w⟩
            with ⟨next, ⟨t', w'⟩⟩ | ⟨p, s⟩
          · rw [hpass] at hstep
            obtain ⟨rfl, rfl⟩ : _ ∧ t' = t.sifted chosen [e] := hstep
            have hsplit' : (t.sifted chosen [e]).chains.elements = xs ++ (_ ++ ys) :=
              elements_sifted ht chosen hsplit
            rw [← List.append_assoc] at hsplit'
            have hrest := ih (sound_sifted ht [e]) hsplit' w'
            rw [Op.run_bind_ok hpass]
            rcases hsift : sift env chosen n ((t.sifted chosen [e]).cursor (Chains.linkTo ys))
              ⟨t.sifted chosen [e], w'⟩ with ⟨⟨visited, last⟩, s⟩ | ⟨p, s⟩
            · rw [hsift] at hrest
              obtain ⟨rfl, rfl, htable⟩ := hrest
              rw [Op.run_bind_ok (show sift env chosen n (t.cursor _) _ = _ from hsift)]
              exact ⟨rfl, rfl, by rw [List.take_succ_cons, sifted_cons]; exact htable⟩
            · rw [hsift] at hrest
              obtain ⟨m, hm, e', he', hpick, htable, hfails⟩ := hrest
              rw [Op.run_bind_error (show sift env chosen n (t.cursor _) _ = _ from hsift)]
              exact ⟨m + 1, Nat.succ_lt_succ hm, e', he', hpick,
                by rw [List.take_succ_cons, sifted_cons]; exact htable, hfails⟩
          · rw [hpass] at hstep
            obtain ⟨hpick, htable, hfails⟩ := hstep
            rw [Op.run_bind_error hpass]
            exact ⟨0, Nat.succ_pos n, e, rfl, hpick, htable, hfails⟩

/-- What is left of `t` when its first `m` elements were visited: of these, the ones that are not
chosen, and all that come after. -/
structure Sifted (t : Table V) (chosen : Cursor → V → Bool) (m : Nat) (t' : Table V) : Prop where
  elements : t'.chains.elements
    = (t.chains.elements.take m).filter (!t.picks chosen ·) ++ t.chains.elements.drop m
  row : ∀ i, t'.chains.row i = (t.chains.row i).filter fun e =>
    e.key ∉ Chains.keysOf ((t.chains.elements.take m).filter (t.picks chosen))
  bucketCount : t'.bucketCount = t.bucketCount
  growths : t'.growths = t.growths
  id : t'.id = t.id

/-- The loop that starts at the first element visits each once, in the order of the traversal, comes
to the end with the last of them, and leaves those that are not chosen. It panics at an element that
is chosen, if what disposes of that does. -/
structure Sweeps (env : Environment V K W) (t : Table V) (chosen : Cursor → V → Bool) (w : W) :
    Prop where
  once : ((t.chains.elements.map t.visit).map (·.1)).Nodup
  rounds : ∀ n, match sift env chosen n t.firstCursor ⟨t, w⟩ with
    | .ok (visited, last) s => visited = (t.chains.elements.take n).map t.visit
        ∧ last = t.cursorAt n ∧ (last.isEnd = true ↔ t.size ≤ n) ∧ t.Sifted chosen n s.table
    | .error p s => ∃ m < n, ∃ e, t.chains.elements[m]? = some e ∧ t.picks chosen e = true
        ∧ t.Sifted chosen (m + 1) s.table ∧ env.FailsOn s.table e.value p
  whole : ∀ n r s, t.size ≤ n → sift env chosen n t.firstCursor ⟨t, w⟩ = .ok r s →
    r = (t.chains.elements.map t.visit, t.endCursor)
      ∧ s.table.chains.elements = t.chains.elements.filter (!t.picks chosen ·)

theorem sifted_take (ht : t.Sound) (chosen : Cursor → V → Bool) (m : Nat) :
    t.Sifted chosen m (t.sifted chosen (t.chains.elements.take m)) where
  elements := by
    have hsplit : t.chains.elements
        = [] ++ (t.chains.elements.take m ++ t.chains.elements.drop m) := by
      rw [List.nil_append, List.take_append_drop]
    rw [elements_sifted ht chosen hsplit, List.nil_append]
  row i := congrFun (ht.wellFormed.withoutAll _).row_eq i
  bucketCount := Chains.bucketCount_withoutAll _
  growths := rfl
  id := rfl

theorem sweeps (env : Environment V K W) (ht : t.Sound) (chosen : Cursor → V → Bool) (w : W) :
    t.Sweeps env chosen w := by
  have hwf := ht.wellFormed
  have hfirst : t.firstCursor = t.cursor (Chains.linkTo t.chains.elements) := by
    rw [← cursorAt_zero hwf, cursorAt_eq, List.drop_zero]
  have hspec := fun n => sift_spec env chosen ht (List.nil_append _).symm n w
  have hrounds : ∀ n, match sift env chosen n t.firstCursor ⟨t, w⟩ with
      | .ok (visited, last) s => visited = (t.chains.elements.take n).map t.visit
          ∧ last = t.cursorAt n ∧ (last.isEnd = true ↔ t.size ≤ n) ∧ t.Sifted chosen n s.table
      | .error p s => ∃ m < n, ∃ e, t.chains.elements[m]? = some e ∧ t.picks chosen e = true
          ∧ t.Sifted chosen (m + 1) s.table ∧ env.FailsOn s.table e.value p := by
    intro n
    have hn := hspec n
    rw [← hfirst, ← cursorAt_eq] at hn
    rcases hrun : sift env chosen n t.firstCursor ⟨t, w⟩ with ⟨⟨visited, last⟩, s⟩ | ⟨p, s⟩
    · rw [hrun] at hn
      obtain ⟨hvisited, rfl, htable⟩ := hn
      exact ⟨hvisited, rfl, isEnd_cursorAt hwf n, htable ▸ sifted_take ht chosen n⟩
    · rw [hrun] at hn
      obtain ⟨m, hm, e, he, hpick, htable, hfails⟩ := hn
      exact ⟨m, hm, e, he, hpick, htable ▸ sifted_take ht chosen (m + 1), hfails⟩
  refine ⟨?_, hrounds, fun n r s hn hrun => ?_⟩
  · have hlinks := hwf.nodup_elements.map fun _ _ => Option.some.inj
    rw [Chains.keysOf, List.map_map] at hlinks
    refine List.Nodup.of_map Cursor.node ?_
    rw [List.map_map, List.map_map]
    exact hlinks
  · obtain ⟨visited, last⟩ := r
    have hround := hrounds n
    rw [hrun] at hround
    obtain ⟨rfl, rfl, -, hleft⟩ := hround
    have hall : t.chains.elements.length ≤ n := hwf.length_elements ▸ hn
    have helements := hleft.elements
    rw [List.take_of_length_le hall, List.drop_of_length_le hall, List.append_nil] at helements
    rw [List.take_of_length_le hall, cursorAt_of_le hwf hn]
    exact ⟨rfl, helements⟩

/-- Erasing or removing at `c`, which names `k`, takes that element out before anything can panic.
The one answers where `next` would have led, and that is as good afterwards; the other hands over
the value. -/
structure Erases (env : Environment V K W) (t : Table V) (c : Cursor) (k : ArenaKey) (v : V)
    (w : W) (t' : Table V) (onward : Cursor) : Prop where
  loses : t.Loses k t'
  next : t.next c = .ok onward
  same : t'.get onward = t.get onward
  accepted : onward = t'.endCursor ∨ ∃ cell, t'.cell onward = .ok cell
  erase : match erase env c ⟨t, w⟩ with
    | .ok c' s => c' = onward ∧ s.table = t'
    | .error p s => env.FailsOn t' v p ∧ s.table = t'
  remove : match remove env c ⟨t, w⟩ with
    | .ok v' s => v' = v ∧ s.table = t'
    | .error p s => env.toSupply.Raises p ∧ s.table = t'

theorem exists_erases (env : Environment V K W) (ht : t.Sound) (hcell : t.cell c = .ok (k, n))
    (w : W) : ∃ t' onward, Erases env t c k n.value w t' onward := by
  obtain ⟨next, hnext, rfl, hsame, haccepted⟩ := next_without ht.wellFormed hcell
  exact ⟨_, _, loses_without ht.wellFormed hcell, hnext, hsame, haccepted,
    erase_spec env ht hcell w, remove_spec env ht hcell w⟩

end Table

/-! ## Runs -/

namespace Store

/-- After any run, whatever the policies and whatever values were replaced: at each cursor that is
accepted one element is erased or removed and the walk may go on behind it, and so a loop that
erases some of the elements visits all of them. -/
theorem swept_after (past : Environment V K W) (w₀ : W) (acts : List (Action V K)) {i : Nat}
    {t : Table V} (ht : ((ofWorld w₀ : Store V W).after past acts).table? i = some t)
    (env : Environment V K W) (w : W) :
    (∀ c k n, t.cell c = .ok (k, n) → ∃ t' onward, Table.Erases env t c k n.value w t' onward)
      ∧ ∀ chosen, Table.Sweeps env t chosen w := by
  have hsound := (((sound_ofWorld w₀).after past acts).table i t ht).1
  exact ⟨fun c k n hcell => Table.exists_erases env hsound hcell w,
    fun chosen => Table.sweeps env hsound chosen w⟩

/-- Four elements stand on one chain and one on another, and one of the four was given a value with
another key. The loop that erases the even ones takes out a head, two neighbours, and the last of
all. -/
theorem swept_after_edit :
    ∃ (p : Policies Nat Nat) (env : Environment Nat Nat Unit) (chosen : Cursor → Nat → Bool)
      (t : Table Nat), p = ⟨id, fun k => if k = 9 then 20 else 7, (· == ·)⟩
      ∧ env = p.environment (.unlimited 4096 8 8) ∧ chosen = (fun _ v => v % 2 == 0)
      ∧ ((ofWorld ()).after env [.create 0, .on 0 (.insertNew 1), .on 0 (.insertNew 2),
        .on 0 (.insertNew 3), .on 0 (.insertNew 4), .on 0 (.insertNew 9),
        .on 0 (.modify ⟨some ⟨4, 0⟩, 0, 0⟩ fun _ => 8)]).table? 0 = some t
      ∧ t.values = [4, 3, 2, 1, 8] ∧ Table.Sweeps env t chosen ()
      ∧ (∃ t' onward, Table.Erases env t ⟨some ⟨0, 0⟩, 0, 0⟩ ⟨0, 0⟩ 1 () t' onward
        ∧ onward = ⟨some ⟨4, 0⟩, 0, 0⟩)
      ∧ ∃ visited s, Table.sift env chosen 5 t.firstCursor ⟨t, ()⟩
          = .ok (visited, t.endCursor) s
        ∧ visited.map (·.2) = [4, 3, 2, 1, 8] ∧ s.table.values = [3, 1] := by
  generalize hp : (Policies.mk id (fun k => if k = 9 then 20 else 7) (· == ·)
    : Policies Nat Nat) = p
  generalize henv : p.environment (.unlimited 4096 8 8 : Supply Unit) = env
  generalize hchosen : (fun (_ : Cursor) (v : Nat) => v % 2 == 0) = chosen
  have hedited : (((ofWorld ()).after env [.create 0, .on 0 (.insertNew 1), .on 0 (.insertNew 2),
      .on 0 (.insertNew 3), .on 0 (.insertNew 4), .on 0 (.insertNew 9),
      .on 0 (.modify ⟨some ⟨4, 0⟩, 0, 0⟩ fun _ => 8)]).table? 0).map (fun t => ((t.values, t.size),
        ((t.get ⟨some ⟨0, 0⟩, 0, 0⟩).toOption, (t.next ⟨some ⟨0, 0⟩, 0, 0⟩).toOption),
        (do return ((← Table.sift env chosen 5 t.firstCursor).1.map (·.2), ← .read (·.values))
          : Op Unit Nat _).run' ⟨t, ()⟩))
      = some (([4, 3, 2, 1, 8], 5), (some 1, some ⟨some ⟨4, 0⟩, 0, 0⟩),
        some ([4, 3, 2, 1, 8], [3, 1])) := by
    subst henv hp hchosen
    decide +kernel
  obtain ⟨t, ht, hcomputed⟩ := Option.map_eq_some_iff.1 hedited
  simp only [Prod.mk.injEq] at hcomputed
  obtain ⟨⟨hvalues, hsize⟩, ⟨hget, hnext⟩, hsift⟩ := hcomputed
  obtain ⟨herases, hsweeps⟩ := swept_after env () _ ht env ()
  refine ⟨p, env, chosen, t, rfl, henv.symm, rfl, ht, hvalues, hsweeps chosen, ?_, ?_⟩
  · rcases hat : t.cell ⟨some ⟨0, 0⟩, 0, 0⟩ with q | ⟨k, n⟩
    · rw [Table.get, hat] at hget
      cases hget
    · obtain ⟨t', onward, hat'⟩ := herases _ _ _ hat
      obtain rfl : (⟨0, 0⟩ : ArenaKey) = k := Option.some.inj (Table.element?_of_cell hat).1
      rw [Table.get, hat] at hget
      rw [hat'.next] at hnext
      exact ⟨t', onward, Option.some.inj hget ▸ hat', Option.some.inj hnext⟩
  · obtain ⟨s', hrun⟩ := Op.of_run'_eq hsift
    obtain ⟨⟨visited, last⟩, s, hrun, hread⟩ := Op.of_run_bind_ok hrun
    injection hread with hread
    obtain ⟨hvisited, hleft⟩ := Prod.mk.inj hread
    have hlast : last = t.endCursor :=
      (Prod.mk.inj ((hsweeps chosen).whole 5 _ s (Nat.le_of_eq hsize) hrun).1).2
    exact ⟨visited, s, hlast ▸ hrun, hvisited, hleft⟩

end Store

end SeparateChaining
