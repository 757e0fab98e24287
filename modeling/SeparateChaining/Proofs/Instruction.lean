import SeparateChaining.Proofs.Renaming
import SeparateChaining.Proofs.Table.Failure

/-!
# Instructions

An instruction is a command that does without cursors: it names
elements by keys or by positions in the traversal. What is seen of its
answer is what the answer says with its cursors replaced by the
positions that they have in the table that is left, and a panic is seen
too. Checking a table is no instruction.

Where foreign code answers as policies do, an instruction that is not
denied storage does to the table what `Instruction.act` says, whatever
the world. There is no foreign code in `act`, only the table and the
policies.
-/

namespace SeparateChaining

/-- The calls of a table's operations with keys or positions. -/
inductive Instruction (V K : Type)
  | insertNew (value : V)
  | insertNew! (value : V)
  | insertAny (value : V)
  | insertAny! (value : V)
  | find (key : K)
  | contains (key : K)
  | count (key : K)
  | range (key : K)
  | iteratorOf (key : K)
  | homeBucket (key : K)
  | erase (position : Nat)
  | remove (position : Nat)
  | eraseRun (key : K)
  | clear
  | rehash (hint : Nat)
  | rehash! (hint : Nat)
  | reserve (additional : Nat)
  | reserve! (additional : Nat)
  | first
  | past
  | next (position : Nat)
  | get (position : Nat)
  | modify (position : Nat) (f : V → V)
  | iterate
  | bucketSize (i : Nat)

/-- What is seen of an answer, or of a panic. -/
inductive Sight (V : Type)
  | linked (position : Option Nat)
  | resident (position : Option Nat) (rejected : V)
  | position (position : Option Nat)
  | positions (start stop : Option Nat)
  | room
  | refused (e : AllocError)
  | flag (b : Bool)
  | number (n : Nat)
  | value (v : V)
  | values (vs : List V)
  | done
  | panicked (p : Panic)
  deriving DecidableEq

namespace Sight

variable {V : Type}

/-- Whether storage was refused. -/
def isRefusal : Sight V → Bool
  | refused _ | panicked (.allocationFailed _) => true
  | _ => false

/-- What is seen of an answer when the table `t` is left. -/
def ofAnswer (t : Table V) : Answer V → Sight V
  | .placement (.ok (.linked c)) => linked (t.position? c)
  | .placement (.ok (.resident c v)) => resident (t.position? c) v
  | .position (.ok c) | .cursor c => position (t.position? c)
  | .cursors start stop => positions (t.position? start) (t.position? stop)
  | .room (.ok ()) => room
  | .placement (.error e) | .position (.error e) | .room (.error e) => refused e
  | .flag b => flag b
  | .number n => number n
  | .value v => value v
  | .values vs => values vs
  | .done => done

def of (t : Table V) : Except Panic (Answer V) → Sight V
  | .ok a => ofAnswer t a
  | .error p => panicked p

end Sight

namespace Instruction

variable {V K W α : Type}

/-- The command that is meant, given the table. -/
def command (t : Table V) : Instruction V K → Command V K
  | insertNew v => .insertNew v
  | insertNew! v => .insertNew! v
  | insertAny v => .insertAny v
  | insertAny! v => .insertAny! v
  | find q => .find q
  | contains q => .contains q
  | count q => .count q
  | range q => .range q
  | iteratorOf q => .iteratorOf q
  | homeBucket q => .homeBucket q
  | erase i => .erase (t.cursorAt i)
  | remove i => .remove (t.cursorAt i)
  | eraseRun q => .eraseRun q
  | clear => .clear
  | rehash hint => .rehash hint
  | rehash! hint => .rehash! hint
  | reserve n => .reserve n
  | reserve! n => .reserve! n
  | first => .first
  | past => .past
  | next i => .next (t.cursorAt i)
  | get i => .get (t.cursorAt i)
  | modify i f => .modify (t.cursorAt i) f
  | iterate => .iterate
  | bucketSize i => .bucketSize i

/-- What is seen of an instruction, and what it leaves. -/
def play (env : Environment V K W) (s : Running V W) (ins : Instruction V K) :
    Sight V × Running V W :=
  match (ins.command s.table).run env s with
  | .ok a s' => (.ofAnswer s'.table a, s')
  | .error p s' => (.panicked p, s')

/-- More room is reserved than can be counted. -/
def Overflows (t : Table V) : Instruction V K → Prop
  | reserve n | reserve! n => countLimit ≤ t.size + n
  | _ => False

/-- Storage is refused, and not because more was reserved than can be counted. -/
def Denied (env : Environment V K W) (s : Running V W) (ins : Instruction V K) : Prop :=
  (ins.play env s).1.isRefusal = true ∧ ¬ins.Overflows s.table

/-! ## What an instruction does -/

/-- What is done with the element at a position, if there is one. -/
def atPosition (t : Table V) (i : Nat) (f : Element V → Answer V × Table V) :
    Except Panic (Answer V) × Table V :=
  match t.chains.elements[i]? with
  | some e => (.ok (f e).1, (f e).2)
  | none => (.error .endCursor, t)

/-- The answer and the table that an instruction leaves, where the policies are `p`. -/
def act (p : Policies V K) (t : Table V) : Instruction V K → Except Panic (Answer V) × Table V
  | insertNew v | insertNew! v =>
    let (r, t) := (t.roomFor (t.size + 1)).placed p v
    (.ok (.placement (.ok r)), t)
  | insertAny v | insertAny! v =>
    let (c, t) := (t.roomFor (t.size + 1)).added p v
    (.ok (.position (.ok c)), t)
  | find q => (.ok (.cursor (t.cursor (Chains.linkTo (t.block p q)))), t)
  | contains q => (.ok (.flag (Chains.linkTo (t.block p q)).isSome), t)
  | count q => (.ok (.number (t.block p q).length), t)
  | range q =>
    let (start, stop) := t.rangeOf (t.blockRun p q)
    (.ok (.cursors start stop), t)
  | iteratorOf q => (.ok (.values ((t.block p q).map (·.value))), t)
  | homeBucket q => (.ok (.number (t.chains.buckets.home (p.hash q))), t)
  | erase i => atPosition t i fun e =>
    (.cursor (t.cursor (t.chains.successor e.key)), t.without e.key)
  | remove i => atPosition t i fun e => (.value e.value, t.without e.key)
  | eraseRun q =>
    (.ok (.number (t.block p q).length), t.withoutAll (Chains.keysOf (t.block p q)))
  | clear => (.ok .done, t.withoutAll (Chains.keysOf t.chains.elements))
  | rehash hint | rehash! hint => (.ok (.room (.ok ())), t.roomFor hint)
  | reserve n =>
    if countLimit ≤ t.size + n then (.ok (.room (.error .capacityOverflow)), t)
    else (.ok (.room (.ok ())), t.roomFor (t.size + n))
  | reserve! n =>
    if countLimit ≤ t.size + n then (.error (.allocationFailed .capacityOverflow), t)
    else (.ok (.room (.ok ())), t.roomFor (t.size + n))
  | first => (.ok (.cursor t.firstCursor), t)
  | past => (.ok (.cursor t.endCursor), t)
  | next i => atPosition t i fun e => (.cursor (t.cursor (t.chains.successor e.key)), t)
  | get i => atPosition t i fun e => (.value e.value, t)
  | modify i f => atPosition t i fun e => (.done, t.edited e.key f)
  | iterate => (.ok (.values t.values), t)
  | bucketSize i =>
    if i < t.bucketCount then (.ok (.number (t.chains.chain i).length), t)
    else (.error (.bucketOutOfRange t.bucketCount i), t)

variable {p : Policies V K} {env : Environment V K W} {held : W → Debt → Prop} {t : Table V}
  {ins : Instruction V K}

open Contract Table

/-- Whatever the world, the instruction is denied storage or does what it should, and what it leaves
is sound and granted. -/
def Acts (p : Policies V K) (env : Environment V K W) (held : W → Debt → Prop) (t : Table V)
    (ins : Instruction V K) : Prop :=
  ∀ w, held w (Table.live 0 t 0) → ins.Denied env ⟨t, w⟩
    ∨ ∃ w', ins.play env ⟨t, w⟩ = (.of (ins.act p t).2 (ins.act p t).1, ⟨(ins.act p t).2, w'⟩)
      ∧ (ins.act p t).2.Sound ∧ held w' (Table.live 0 (ins.act p t).2 0)

theorem play_ok {s : Running V W} {a : Answer V} (s' : Running V W)
    (h : (ins.command s.table).run env s = .ok a s') :
    ins.play env s = (.ofAnswer s'.table a, s') := by
  rw [play, h]

theorem play_error {s : Running V W} {q : Panic} (s' : Running V W)
    (h : (ins.command s.table).run env s = .error q s') :
    ins.play env s = (.panicked q, s') := by
  rw [play, h]

theorem acts_well (ht : t.Sound) {op : Op W V α} {post : α → Debt → Table V → Prop}
    (hop : (exact p held).Keeps none 0 t op post) {g : α → Answer V}
    (hrun : (ins.command t).run env = do return g (← op))
    (hpost : ∀ a d t', post a d t' → d = 0 ∧ ins.act p t = (.ok (g a), t')) :
    ins.Acts p env held t := by
  intro w hw
  obtain ⟨a, t', w', d, hop, hsound, hheld, ha⟩ := exact_ends hop ht hw
  obtain ⟨rfl, hact⟩ := hpost a d t' ha
  rw [hact]
  refine Or.inr ⟨w', play_ok ⟨t', w'⟩ ?_, hsound, hheld⟩
  rw [hrun]
  exact Op.run_bind_ok hop

/-- An operation that reports refusals. -/
theorem acts_granted (ht : t.Sound) {op : Op W V (Except AllocError α)}
    {post : Except AllocError α → Debt → Table V → Prop}
    (hop : (exact p held).Keeps none 0 t op post) {g : Except AllocError α → Answer V}
    (hrun : (ins.command t).run env = do return g (← op)) (hcounted : ¬ins.Overflows t)
    (hrefused : ∀ e t', (Sight.ofAnswer t' (g (.error e))).isRefusal = true)
    (hok : ∀ a d t', post (.ok a) d t' → d = 0 ∧ ins.act p t = (.ok (g (.ok a)), t')) :
    ins.Acts p env held t := by
  intro w hw
  obtain ⟨r, t', w', d, hop, hsound, hheld, hr⟩ := exact_ends hop ht hw
  have hplay : ins.play env ⟨t, w⟩ = (.ofAnswer t' (g r), ⟨t', w'⟩) := by
    refine play_ok ⟨t', w'⟩ ?_
    rw [hrun]
    exact Op.run_bind_ok hop
  cases r with
  | error e => exact Or.inl ⟨by rw [hplay]; exact hrefused e t', hcounted⟩
  | ok a =>
      obtain ⟨rfl, hact⟩ := hok a d t' hr
      rw [hact]
      exact Or.inr ⟨w', hplay, hsound, hheld⟩

/-- The same operation where a refusal is a panic. -/
theorem acts_granted! (ht : t.Sound) {op : Op W V (Except AllocError α)}
    {post : Except AllocError α → Debt → Table V → Prop}
    (hop : (exact p held).Keeps none 0 t op post) {g : α → Answer V}
    (hrun : (ins.command t).run env = do return g (← op.infallible)) (hcounted : ¬ins.Overflows t)
    (hok : ∀ a d t', post (.ok a) d t' → d = 0 ∧ ins.act p t = (.ok (g a), t')) :
    ins.Acts p env held t := by
  intro w hw
  obtain ⟨r, t', w', d, hop, hsound, hheld, hr⟩ := exact_ends hop ht hw
  cases r with
  | error e =>
      have hplay : ins.play env ⟨t, w⟩ = (.panicked (.allocationFailed e), ⟨t', w'⟩) := by
        refine play_error ⟨t', w'⟩ ?_
        rw [hrun]
        exact Op.run_bind_error (Op.run_infallible_error hop) _
      exact Or.inl ⟨by rw [hplay]; rfl, hcounted⟩
  | ok a =>
      obtain ⟨rfl, hact⟩ := hok a d t' hr
      rw [hact]
      refine Or.inr ⟨w', play_ok ⟨t', w'⟩ ?_, hsound, hheld⟩
      rw [hrun]
      exact Op.run_bind_ok (Op.run_infallible_ok hop)

theorem acts_still (ht : t.Sound) {op : Op W V α} {φ : α → Prop}
    (hop : (exact p held).Keeps none 0 t op (still t φ)) {g : α → Answer V}
    (hrun : (ins.command t).run env = do return g (← op))
    (hact : ∀ a, φ a → ins.act p t = (.ok (g a), t)) : ins.Acts p env held t := by
  refine acts_well ht hop hrun ?_
  intro a d t' ha
  obtain ⟨rfl, rfl, ha⟩ := ha
  exact ⟨rfl, hact a ha⟩

theorem acts_ok (ht : t.Sound) {a : Answer V}
    (hrun : ∀ w, (ins.command t).run env ⟨t, w⟩ = .ok a ⟨t, w⟩)
    (hact : ins.act p t = (.ok a, t)) : ins.Acts p env held t := by
  intro w hw
  rw [hact]
  exact Or.inr ⟨w, play_ok ⟨t, w⟩ (hrun w), ht, hw⟩

theorem acts_error (ht : t.Sound) {q : Panic}
    (hrun : ∀ w, (ins.command t).run env ⟨t, w⟩ = .error q ⟨t, w⟩)
    (hact : ins.act p t = (.error q, t)) : ins.Acts p env held t := by
  intro w hw
  rw [hact]
  exact Or.inr ⟨w, play_error ⟨t, w⟩ (hrun w), ht, hw⟩

/-- An instruction at a position meets the element there, or the end. -/
theorem acts_at (ht : t.Sound) {i : Nat} {f : Element V → Answer V × Table V}
    (htarget : (ins.command t).target? = some (t.cursorAt i))
    (hact : ins.act p t = atPosition t i f)
    (hok : ∀ k n, t.cell (t.cursorAt i) = .ok (k, n) →
      ins.act p t = (.ok (f ⟨k, n.value, n.hash⟩).1, (f ⟨k, n.value, n.hash⟩).2) →
      ins.Acts p env held t) : ins.Acts p env held t := by
  rw [atPosition, Chains.elements, List.getElem?_map] at hact
  cases hcell : t.chains.traversal[i]? with
  | none =>
      rw [hcell] at hact
      have hend : t.cell (t.cursorAt i) = .error .endCursor := by
        rw [cursorAt, hcell]
        simp [cell, cursor]
      exact acts_error ht (fun w => Command.run_of_cell_error htarget hend) hact
  | some cell =>
      rw [hcell] at hact
      exact hok cell.1 cell.2 (cell_cursorAt ht.wellFormed hcell) hact

section Instructions

variable (henv : env.Follows p held) (ht : t.Sound)

include henv ht

theorem acts_insertNew (v : V) : (insertNew v : Instruction V K).Acts p env held t := by
  refine acts_granted ht (keeps_insertNew (obeyed_exact henv) (grows_exact.to _ _) links_exact v)
    rfl id (fun _ _ => rfl) fun r d t' hr => ⟨hr.1, ?_⟩
  rw [act, placed_of says_exact hr.2]

theorem acts_insertNew! (v : V) : (insertNew! v : Instruction V K).Acts p env held t := by
  refine acts_granted! ht (g := fun r => .placement (.ok r))
    (keeps_insertNew (obeyed_exact henv) (grows_exact.to _ _) links_exact v)
    rfl id fun r d t' hr => ⟨hr.1, ?_⟩
  rw [act, placed_of says_exact hr.2]

theorem acts_insertAny (v : V) : (insertAny v : Instruction V K).Acts p env held t := by
  refine acts_granted ht (keeps_insertAny (obeyed_exact henv) (grows_exact.to _ _) links_exact v)
    rfl id (fun _ _ => rfl) fun c d t' hc => ⟨hc.1, ?_⟩
  rw [act, added_of says_exact hc.2]

theorem acts_insertAny! (v : V) : (insertAny! v : Instruction V K).Acts p env held t := by
  refine acts_granted! ht (g := fun c => .position (.ok c))
    (keeps_insertAny (obeyed_exact henv) (grows_exact.to _ _) links_exact v)
    rfl id fun c d t' hc => ⟨hc.1, ?_⟩
  rw [act, added_of says_exact hc.2]

theorem acts_find (q : K) : (find q : Instruction V K).Acts p env held t := by
  refine acts_still ht (keeps_find (obeyed_exact henv) q) rfl fun c hc => ?_
  obtain ⟨hash, l, rfl, hl, rfl⟩ := hc
  rw [says_exact.firstMatch hl]
  rfl

theorem acts_contains (q : K) : (contains q : Instruction V K).Acts p env held t := by
  refine acts_still ht (keeps_contains (obeyed_exact henv) q) rfl fun b hb => ?_
  obtain ⟨hash, l, rfl, hl, rfl⟩ := hb
  rw [says_exact.firstMatch hl]
  rfl

theorem acts_count (q : K) : (count q : Instruction V K).Acts p env held t := by
  refine acts_still ht (keeps_count (obeyed_exact henv) q) rfl fun n hn => ?_
  obtain ⟨hash, r, rfl, hr, rfl⟩ := hn
  rw [says_exact.isRun hr, Policies.count_runIn]
  rfl

theorem acts_range (q : K) : (range q : Instruction V K).Acts p env held t := by
  refine acts_still ht (g := fun c => .cursors c.1 c.2) (keeps_range (obeyed_exact henv) q) rfl
    fun c hc => ?_
  obtain ⟨hash, r, rfl, hr, rfl⟩ := hc
  rw [says_exact.isRun hr]
  rfl

theorem acts_iteratorOf (q : K) : (iteratorOf q : Instruction V K).Acts p env held t := by
  refine acts_still ht (g := fun it => .values it.toList) (keeps_iteratorOf (obeyed_exact henv) q)
    rfl fun it hit => ?_
  obtain ⟨hash, r, rfl, hr, rfl⟩ := hit
  rw [toList_runIterator says_exact ht.wellFormed hr]
  rfl

theorem acts_homeBucket (q : K) : (homeBucket q : Instruction V K).Acts p env held t := by
  refine acts_still ht (keeps_homeBucket (obeyed_exact henv) q) rfl fun i hi => ?_
  obtain ⟨-, hash, rfl, rfl⟩ := hi
  rfl

theorem acts_erase (i : Nat) : (erase i : Instruction V K).Acts p env held t := by
  refine acts_at ht rfl rfl ?_
  intro k n hcell hact
  refine acts_well ht (keeps_erase (obeyed_exact henv) unlinks_exact hcell) rfl ?_
  intro c d t' hc
  obtain ⟨rfl, rfl, rfl⟩ := hc
  exact ⟨rfl, hact⟩

theorem acts_remove (i : Nat) : (remove i : Instruction V K).Acts p env held t := by
  refine acts_at ht rfl rfl ?_
  intro k n hcell hact
  refine acts_well ht (keeps_remove (obeyed_exact henv) unlinks_exact hcell) rfl ?_
  intro v d t' hv
  obtain ⟨rfl, rfl, rfl⟩ := hv
  exact ⟨rfl, hact⟩

theorem acts_eraseRun (q : K) : (eraseRun q : Instruction V K).Acts p env held t := by
  refine acts_well ht (keeps_eraseRun (obeyed_exact henv) unlinks_exact q) rfl ?_
  intro n d t' hn
  rcases hn with ⟨rfl, hash, rfl, ⟨rfl, rfl, hnone⟩ | ⟨r, xs, ms, ys, hspans, rfl, rfl⟩⟩
  · have hblock : t'.block p q = [] :=
      Policies.block_eq_nil fun e he => says_exact.not_meets (hnone e he)
    rw [act, hblock]
    exact ⟨rfl, rfl⟩
  · obtain ⟨rfl, -⟩ := says_exact.spans hspans
    exact ⟨rfl, rfl⟩

theorem acts_clear : (clear : Instruction V K).Acts p env held t := by
  refine acts_well ht (g := fun _ => .done) (keeps_clear (obeyed_exact henv) unlinks_exact) rfl ?_
  intro u d t' hu
  obtain ⟨rfl, rfl, -⟩ := hu
  exact ⟨rfl, rfl⟩

theorem acts_rehash (hint : Nat) : (rehash hint : Instruction V K).Acts p env held t := by
  refine acts_granted ht (keeps_rehash (obeyed_exact henv) (grows_exact.to _ _)) rfl id
    (fun _ _ => rfl) fun u d t' hr => ?_
  obtain ⟨rfl, rfl⟩ := hr
  exact ⟨rfl, rfl⟩

theorem acts_rehash! (hint : Nat) : (rehash! hint : Instruction V K).Acts p env held t := by
  refine acts_granted! ht (g := fun u => .room (.ok u))
    (keeps_rehash (obeyed_exact henv) (grows_exact.to _ _)) rfl id fun u d t' hr => ?_
  obtain ⟨rfl, rfl⟩ := hr
  exact ⟨rfl, rfl⟩

theorem acts_reserve (n : Nat) : (reserve n : Instruction V K).Acts p env held t := by
  by_cases hlimit : countLimit ≤ t.size + n
  · refine acts_ok ht (a := .room (.error .capacityOverflow)) (fun w => ?_) (if_pos hlimit)
    exact Op.run_bind_ok (reserve_of_overflow hlimit w)
  · refine acts_granted ht (keeps_reserve (obeyed_exact henv) (grows_exact.to _ _)) rfl hlimit
      (fun _ _ => rfl) fun u d t' hr => ?_
    rcases hr with ⟨hover, -⟩ | ⟨rfl, rfl⟩
    · exact absurd hover hlimit
    · exact ⟨rfl, if_neg hlimit⟩

theorem acts_reserve! (n : Nat) : (reserve! n : Instruction V K).Acts p env held t := by
  by_cases hlimit : countLimit ≤ t.size + n
  · refine acts_error ht (q := .allocationFailed .capacityOverflow) (fun w => ?_) (if_pos hlimit)
    exact Op.run_bind_error (Op.run_infallible_error (reserve_of_overflow hlimit w)) _
  · refine acts_granted! ht (g := fun u => .room (.ok u))
      (keeps_reserve (obeyed_exact henv) (grows_exact.to _ _)) rfl hlimit fun u d t' hr => ?_
    rcases hr with ⟨hover, -⟩ | ⟨rfl, rfl⟩
    · exact absurd hover hlimit
    · exact ⟨rfl, if_neg hlimit⟩

omit henv

theorem acts_next (i : Nat) : (next i : Instruction V K).Acts p env held t := by
  refine acts_at ht rfl rfl ?_
  intro k n hcell hact
  refine acts_ok ht (fun w => ?_) hact
  have hnext : t.next (t.cursorAt i) = .ok (t.cursor (t.chains.successor k)) := by
    rw [Table.next, hcell]
    rfl
  exact Op.run_query_bind hnext _

theorem acts_get (i : Nat) : (get i : Instruction V K).Acts p env held t := by
  refine acts_at ht rfl rfl ?_
  intro k n hcell hact
  refine acts_ok ht (fun w => ?_) hact
  have hget : t.get (t.cursorAt i) = .ok n.value := by
    rw [Table.get, hcell]
    rfl
  exact Op.run_query_bind hget _

theorem acts_modify (i : Nat) (f : V → V) :
    (modify i f : Instruction V K).Acts p env held t := by
  refine acts_at ht rfl rfl ?_
  intro k n hcell hact
  refine acts_well ht (g := fun _ => .done) (Command.keeps_modify edits_exact hcell f) rfl ?_
  intro u d t' hu
  obtain ⟨rfl, rfl, -⟩ := hu
  exact ⟨rfl, hact⟩

theorem acts_iterate : (iterate : Instruction V K).Acts p env held t :=
  acts_ok ht (fun _ => rfl) (by rw [act, ← ht.wellFormed.iterator_eq])

theorem acts_bucketSize (i : Nat) : (bucketSize i : Instruction V K).Acts p env held t := by
  by_cases hi : i < t.bucketCount
  · exact acts_ok ht (fun w => Op.run_query_bind (if_pos hi) _) (if_pos hi)
  · exact acts_error ht (fun w => Op.run_bind_error (Op.run_query_error (if_neg hi)) _) (if_neg hi)

end Instructions

/-- Where foreign code answers as the policies say, every instruction does what it should. -/
theorem acts (henv : env.Follows p held) (ht : t.Sound) (ins : Instruction V K) :
    ins.Acts p env held t := by
  cases ins with
  | insertNew v => exact acts_insertNew henv ht v
  | insertNew! v => exact acts_insertNew! henv ht v
  | insertAny v => exact acts_insertAny henv ht v
  | insertAny! v => exact acts_insertAny! henv ht v
  | find q => exact acts_find henv ht q
  | contains q => exact acts_contains henv ht q
  | count q => exact acts_count henv ht q
  | range q => exact acts_range henv ht q
  | iteratorOf q => exact acts_iteratorOf henv ht q
  | homeBucket q => exact acts_homeBucket henv ht q
  | erase i => exact acts_erase henv ht i
  | remove i => exact acts_remove henv ht i
  | eraseRun q => exact acts_eraseRun henv ht q
  | clear => exact acts_clear henv ht
  | rehash hint => exact acts_rehash henv ht hint
  | rehash! hint => exact acts_rehash! henv ht hint
  | reserve n => exact acts_reserve henv ht n
  | reserve! n => exact acts_reserve! henv ht n
  | first => exact acts_ok ht (fun _ => rfl) rfl
  | past => exact acts_ok ht (fun _ => rfl) rfl
  | next i => exact acts_next ht i
  | get i => exact acts_get ht i
  | modify i f => exact acts_modify ht i f
  | iterate => exact acts_iterate ht
  | bucketSize i => exact acts_bucketSize ht i

end Instruction

end SeparateChaining
