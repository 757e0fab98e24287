import Mathlib.Control.Monad.Basic
import Mathlib.Logic.Relation
import SeparateChaining.Proofs.Chains.Traversal
import SeparateChaining.Proofs.Contract.Wild
import SeparateChaining.Proofs.Table.Check
import SeparateChaining.Proofs.Table.Insertion
import SeparateChaining.Proofs.Table.Removal

/-!
# Commands

A command is one call of a table's operations with its arguments, as
data, so that runs of a table are lists of commands. `Command.run` is
the operation that a command stands for. What the laws of the single
operations have in common is collected here once: under a contract that
suits it, every command keeps the contract (`Command.keeps_run`), and
the cursors that it answers with are issued by the table as it is then.
-/

namespace SeparateChaining

/-- The calls of a table's operations. -/
inductive Command (V K : Type)
  | insertNew (value : V)
  | insertNew! (value : V)
  | insertAny (value : V)
  | insertAny! (value : V)
  | find (key : K)
  | contains (key : K)
  | count (key : K)
  | range (key : K)
  | iteratorOf (key : K)
  | homeBucket (key : K)
  | check
  | erase (c : Cursor)
  | remove (c : Cursor)
  | eraseRun (key : K)
  | clear
  | rehash (hint : Nat)
  | rehash! (hint : Nat)
  | reserve (additional : Nat)
  | reserve! (additional : Nat)
  | first
  | past
  | next (c : Cursor)
  | get (c : Cursor)
  | modify (c : Cursor) (f : V → V)
  | iterate
  | bucketSize (i : Nat)

/-- What a command answers. -/
inductive Answer (V : Type)
  | placement (r : Except AllocError (Placement V))
  | position (r : Except AllocError Cursor)
  | room (r : Except AllocError Unit)
  | cursor (c : Cursor)
  | cursors (start stop : Cursor)
  | flag (b : Bool)
  | number (n : Nat)
  | value (v : V)
  | values (vs : List V)
  | done
  deriving DecidableEq

namespace Answer

variable {V : Type}

/-- The cursors in an answer. -/
def issued : Answer V → List Cursor
  | placement (.ok p) => [p.cursor]
  | position (.ok c) => [c]
  | cursor c => [c]
  | cursors start stop => [start, stop]
  | _ => []

end Answer

namespace Command

variable {V K W : Type}

/-- The operation that a command stands for. -/
def run (env : Environment V K W) : Command V K → Op W V (Answer V)
  | insertNew value => return .placement (← Table.insertNew env value)
  | insertNew! value => return .placement (.ok (← Table.insertNew! env value))
  | insertAny value => return .position (← Table.insertAny env value)
  | insertAny! value => return .position (.ok (← Table.insertAny! env value))
  | find key => return .cursor (← Table.find env key)
  | contains key => return .flag (← Table.contains env key)
  | count key => return .number (← Table.count env key)
  | range key => do
    let (start, stop) ← Table.range env key
    return .cursors start stop
  | iteratorOf key => return .values (← Table.iteratorOf env key).toList
  | homeBucket key => return .number (← Table.homeBucket env key)
  | check => return .flag (← Table.check env)
  | erase c => return .cursor (← Table.erase env c)
  | remove c => return .value (← Table.remove env c)
  | eraseRun key => return .number (← Table.eraseRun env key)
  | clear => do
    Table.clear env
    return .done
  | rehash hint => return .room (← Table.rehash env hint)
  | rehash! hint => return .room (.ok (← Table.rehash! env hint))
  | reserve additional => return .room (← Table.reserve env additional)
  | reserve! additional => return .room (.ok (← Table.reserve! env additional))
  | first => return .cursor (← .read (·.firstCursor))
  | past => return .cursor (← .read (·.endCursor))
  | next c => return .cursor (← .query (·.next c))
  | get c => return .value (← .query (·.get c))
  | modify c f => do
    .update fun t => (t.modify c f).map fun t => ((), t)
    return .done
  | iterate => return .values (← .read (·.iterator.toList))
  | bucketSize i => return .number (← .query (·.bucketSize i))

/-- The cursor that a command is to be carried out at. -/
def target? : Command V K → Option Cursor
  | erase c | remove c | next c | get c | modify c _ => some c
  | _ => none

/-- Whether a command makes room before it does anything else. -/
def makesRoom : Command V K → Bool
  | insertNew _ | insertNew! _ | insertAny _ | insertAny! _ => true
  | rehash _ | rehash! _ | reserve _ | reserve! _ => true
  | _ => false

/-- Whether a command adds an element. -/
def isInsertion : Command V K → Bool
  | insertNew _ | insertNew! _ | insertAny _ | insertAny! _ => true
  | _ => false

/-- Whether a command may link a value beside its equals. -/
def isInsertAny : Command V K → Bool
  | insertAny _ | insertAny! _ => true
  | _ => false

/-- Whether a command may take elements out. -/
def isRemoval : Command V K → Bool
  | erase _ | remove _ | eraseRun _ | clear => true
  | _ => false

/-- Whether a command may replace a value. -/
def isEdit : Command V K → Bool
  | modify .. => true
  | _ => false

end Command

/-! ## Cursors that are issued -/

namespace Table

variable {V K W : Type} {C : Contract V K W} {t : Table V}

/-- The table would issue `c`: it names a live element of the table, or its end. -/
def Issues (t : Table V) (c : Cursor) : Prop :=
  ∃ l : Link, c = t.cursor l ∧ ∀ k ∈ l, ∃ n, t.chains.nodes.get? k = some n

theorem issues_end : t.Issues t.endCursor := ⟨none, rfl, fun _ hk => by cases hk⟩

theorem issues_of_get? {k : ArenaKey} {n : Node V} (hn : t.chains.nodes.get? k = some n) :
    t.Issues (t.cursor (some k)) := by
  refine ⟨some k, rfl, fun j hj => ?_⟩
  obtain rfl := Option.some.inj hj
  exact ⟨n, hn⟩

theorem issues_firstMatch (hwf : t.chains.WellFormed) {hash : UInt64} {q : K} {l : Link}
    (h : C.FirstMatch hash q (t.homeRow hash) l) : t.Issues (t.cursor l) := by
  cases l with
  | none => exact issues_end
  | some k =>
      obtain ⟨xs, e, ys, hrow, rfl, -⟩ := h
      have he : e ∈ t.homeRow hash := by simp [hrow]
      obtain ⟨n, hn, -⟩ := hwf.get? he
      exact issues_of_get? hn

theorem issues_successor (hwf : t.chains.WellFormed) {k : ArenaKey} {n : Node V}
    (hn : t.chains.nodes.get? k = some n) : t.Issues (t.cursor (t.chains.successor k)) := by
  refine ⟨_, rfl, fun j hj => (hwf.successor_live hn hj).2⟩

theorem issues_first (hwf : t.chains.WellFormed) : t.Issues t.firstCursor := by
  refine ⟨_, rfl, fun k hk => ?_⟩
  rw [hwf.first_eq] at hk
  obtain ⟨e, he, rfl⟩ := Option.map_eq_some_iff.1 hk
  exact hwf.mem_keysOf_elements.1 (List.mem_map_of_mem (List.mem_of_mem_head? he))

theorem issues_rangeOf (hwf : t.chains.WellFormed) {hash : UInt64} {q : K} {r : Option Run}
    (h : C.IsRun hash q (t.homeRow hash) r) :
    t.Issues (t.rangeOf r).1 ∧ t.Issues (t.rangeOf r).2 := by
  cases r with
  | none => exact ⟨issues_end, issues_end⟩
  | some r =>
      obtain ⟨xs, ms, ys, hspans⟩ := h
      have hlive : ∀ m ∈ ms ++ ys, ∃ n, t.chains.nodes.get? m.key = some n := by
        intro m hm
        have hrow : m ∈ t.homeRow hash := by
          rw [hspans.split]
          exact List.mem_append_right _ hm
        obtain ⟨n, hn, -⟩ := hwf.get? hrow
        exact ⟨n, hn⟩
      obtain ⟨m, hm, hkey, -⟩ := hspans.start
      obtain ⟨n, hn⟩ := hlive m (List.mem_of_mem_head? hm)
      rw [hkey] at hn
      refine ⟨issues_of_get? hn, ?_⟩
      show t.Issues (t.cursor (t.chains.successor r.last))
      rw [hspans.last]
      cases hlast : ms.getLast? with
      | none => exact issues_successor hwf hn
      | some x =>
          obtain ⟨n, hn⟩ := hlive x (List.mem_append_left _ (List.mem_of_getLast? hlast))
          exact issues_successor hwf hn

theorem issues_linked (p : Chains.Place) (v : V) (hash : UInt64) :
    (t.linked p v hash).Issues (t.cursor (some (t.linkedKey p v hash))) := by
  have he : (t.linked p v hash).chains.element? (t.linkedKey p v hash)
      = some ⟨t.linkedKey p v hash, v, hash⟩ := by
    rw [linked, linkedKey, Chains.element?_insertAt, if_pos rfl]
  obtain ⟨n, hn, -⟩ := Chains.element?_eq_some.1 he
  exact issues_of_get? (t := t.linked p v hash) hn

theorem issues_placed {value : V} {p : Placement V} {t' : Table V}
    (hwf : t'.chains.WellFormed) (h : C.Placed t value p t') : t'.Issues p.cursor := by
  cases h with
  | linked room key hashed new => exact issues_linked ..
  | resident room key hashed found => exact issues_firstMatch hwf found

theorem issues_added {value : V} {c : Cursor} {t' : Table V} (h : C.Added t value c t') :
    t'.Issues c := by
  cases h with
  | alone room key hashed new => exact issues_linked ..
  | beside room key hashed found => exact issues_linked ..

theorem issues_without (hwf : t.chains.WellFormed) {k : ArenaKey} {n : Node V}
    (hn : t.chains.nodes.get? k = some n) :
    (t.without k).Issues (t.cursor (t.chains.successor k)) := by
  refine ⟨_, rfl, fun j hj => ?_⟩
  obtain ⟨hne, m, hm⟩ := hwf.successor_live hn hj
  have he : (t.without k).chains.element? j = some ⟨j, m.value, m.hash⟩ := by
    rw [without, hwf.element?_without, if_neg hne]
    exact Chains.element?_eq_some.2 ⟨m, hm, rfl⟩
  obtain ⟨n', hn', -⟩ := Chains.element?_eq_some.1 he
  exact ⟨n', hn'⟩

/-! ## Replacing a value -/

/-- The table with the value of the element that `k` names replaced by `f` of it. -/
def edited (t : Table V) (k : ArenaKey) (f : V → V) : Table V :=
  { t with chains.nodes := t.chains.nodes.modify k fun n => { n with value := f n.value } }

theorem get?_edited (t : Table V) (k : ArenaKey) (f : V → V) (j : ArenaKey) :
    (t.edited k f).chains.nodes.get? j = (t.chains.nodes.get? j).map fun n =>
      { n with value := if j = k then f n.value else n.value } := by
  show (t.chains.nodes.modify k _).get? j = _
  rw [Arena.get?_modify]
  by_cases hj : j = k
  · subst hj
    simp
  · simp [hj]

theorem wellFormed_edited (hwf : t.chains.WellFormed) (k : ArenaKey) (f : V → V) :
    (t.edited k f).chains.WellFormed :=
  (hwf.revalue (g := fun j v => if j = k then f v else v) fun j => get?_edited t k f j).wellFormed

theorem modify_eq {c : Cursor} {k : ArenaKey} {n : Node V} (hcell : t.cell c = .ok (k, n))
    (f : V → V) : t.modify c f = .ok (t.edited k f) := by
  rw [modify, hcell]
  rfl

theorem isMisuse_of_cell {c : Cursor} {p : Panic} (hcell : t.cell c = .error p) :
    p.isMisuse = true := by
  unfold cell at hcell
  split at hcell
  · cases hcell
    rfl
  · split at hcell
    · cases hcell
      rfl
    · split at hcell
      · cases hcell
        rfl
      · split at hcell
        · cases hcell
        · cases hcell
          rfl

end Table

/-! ## Commands keep contracts -/

namespace Contract

variable {V K W : Type}

/-- Replacing a value keeps the invariant. -/
def Edits (C : Contract V K W) : Prop :=
  ∀ t k f n w, t.chains.WellFormed → t.chains.nodes.get? k = some n →
    C.inv 0 t w → C.inv 0 (Table.edited t k f) w

/-- Everything that a command may do keeps the contract. -/
structure Suits (C : Contract V K W) (env : Environment V K W) (cmd : Command V K) : Prop where
  obeyed : C.Obeyed env
  grows : C.Grows
  links : C.Links cmd.isInsertAny
  unlinks : cmd.isRemoval = true → C.Unlinks
  edits : cmd.isEdit = true → C.Edits
  misuse : ∀ p, Panic.isMisuse p = true → C.panics p

end Contract

namespace Command

variable {V K W α : Type} {C : Contract V K W} {env : Environment V K W} {t : Table V}

open Contract Table

/-- A command keeps its contract if nothing is owed after it and the cursors that it answers with
are issued by the table that it leaves. -/
def IssuedBy (a : Answer V) (d : Debt) (t : Table V) : Prop :=
  d = 0 ∧ ∀ c ∈ a.issued, t.Issues c

theorem keeps_plain {op : Op W V α} {post : α → Debt → Table V → Prop}
    (hop : C.Keeps none 0 t op post) (hpost : ∀ a d t', post a d t' → d = 0) {g : α → Answer V}
    (hg : ∀ a, (g a).issued = []) : C.Keeps none 0 t (do return g (← op)) IssuedBy :=
  hop.bind fun a d t' ha => Keeps.pure ⟨hpost a d t' ha, fun c hc => by simp [hg] at hc⟩

theorem keeps_cursor {op : Op W V α} {post : α → Debt → Table V → Prop}
    (hop : C.Keeps none 0 t op post) {g : α → Answer V} {c : α → Cursor}
    (hg : ∀ a, (g a).issued = [c a])
    (hpost : ∀ a d t', t'.chains.WellFormed → post a d t' → d = 0 ∧ t'.Issues (c a)) :
    C.Keeps none 0 t (do return g (← op)) IssuedBy :=
  hop.bind fun a d t' ha => Keeps.of_wellFormed fun hwf => Keeps.pure
    ⟨(hpost a d t' hwf ha).1, fun x hx => by
      rw [hg, List.mem_singleton] at hx
      rw [hx]
      exact (hpost a d t' hwf ha).2⟩

theorem keeps_query (hmisuse : ∀ p, Panic.isMisuse p = true → C.panics p)
    {q : Table V → Except Panic α} (hq : ∀ p, q (t.fencedBy none) = .error p → p.isMisuse = true) :
    C.Keeps none 0 t (.query q) fun a d t' => d = 0 ∧ t' = t ∧ q (t.fencedBy none) = .ok a := by
  intro w hinv hwf
  rw [Op.query]
  cases hrun : q (t.fencedBy none) with
  | ok a => exact ⟨0, t, rfl, hinv, hwf, rfl, rfl, rfl⟩
  | error p => exact ⟨t, rfl, hinv, hwf, hmisuse p (hq p hrun)⟩

theorem keeps_modify (hedits : C.Edits) {c : Cursor} {k : ArenaKey} {n : Node V}
    (hcell : t.cell c = .ok (k, n)) (f : V → V) :
    C.Keeps none 0 t (.update fun t => (t.modify c f).map fun t => ((), t))
      (still (t.edited k f) fun _ => True) := by
  refine Keeps.of_wellFormed ?_
  intro hwf
  have hmodify : ((t.fencedBy none).modify c f).map (fun t => ((), t))
      = .ok ((), (t.edited k f).fencedBy none) := by
    rw [modify_eq (t := t.fencedBy none) (n := n) hcell f]
    rfl
  exact Keeps.update hmodify (wellFormed_edited hwf k f)
    (fun w hinv => hedits t k f n w hwf (element?_of_cell hcell).2 hinv) ⟨rfl, rfl, trivial⟩

/-- At a cursor that is not accepted every command panics, and nothing happens. -/
theorem run_of_cell_error {cmd : Command V K} {c : Cursor} (htarget : cmd.target? = some c)
    {s : Running V W} {p : Panic} (hcell : s.table.cell c = .error p) :
    cmd.run env s = .error p s := by
  cases cmd with
  | erase c' =>
      obtain rfl := Option.some.inj htarget
      exact Op.run_bind_error (Op.run_bind_error (removeAt_of_cell_error hcell) _) _
  | remove c' =>
      obtain rfl := Option.some.inj htarget
      exact Op.run_bind_error (Op.run_bind_error (removeAt_of_cell_error hcell) _) _
  | next c' =>
      obtain rfl := Option.some.inj htarget
      refine Op.run_bind_error (Op.run_query_error ?_) _
      rw [Table.next, hcell]
      rfl
  | get c' =>
      obtain rfl := Option.some.inj htarget
      refine Op.run_bind_error (Op.run_query_error ?_) _
      rw [Table.get, hcell]
      rfl
  | modify c' f =>
      obtain rfl := Option.some.inj htarget
      have hmodify : s.table.modify c' f = .error p := by
        rw [Table.modify, hcell]
        rfl
      refine Op.run_bind_error ?_ _
      rw [Op.update, hmodify]
      rfl
  | _ => cases htarget

/-- A command at a cursor keeps its contract if it does so when the cursor is accepted. -/
theorem keeps_at (hmisuse : ∀ p, Panic.isMisuse p = true → C.panics p) {cmd : Command V K}
    {c : Cursor} (htarget : cmd.target? = some c)
    (hok : ∀ k n, t.chains.WellFormed → t.cell c = .ok (k, n) →
      C.Keeps none 0 t (cmd.run env) IssuedBy) :
    C.Keeps none 0 t (cmd.run env) IssuedBy := by
  intro w hinv hwf
  cases hcell : t.cell c with
  | ok cell => exact hok cell.1 cell.2 hwf hcell w hinv hwf
  | error p =>
      have hcell' : (t.fencedBy none).cell c = .error p := hcell
      rw [run_of_cell_error htarget (s := ⟨t.fencedBy none, w⟩) hcell']
      exact ⟨t, rfl, hinv, hwf, hmisuse p (isMisuse_of_cell hcell)⟩

theorem keeps_insert {op : Op W V (Except AllocError α)} {c : α → Cursor}
    {left : Table V → Prop} {good : α → Table V → Prop}
    (hop : C.Keeps none 0 t op (C.OrRefused left fun a d t' => d = 0 ∧ good a t'))
    {g : Except AllocError α → Answer V}
    (hissues : ∀ a t', t'.chains.WellFormed → good a t' → t'.Issues (c a))
    (hok : ∀ a, (g (.ok a)).issued = [c a]) (herror : ∀ e, (g (.error e)).issued = []) :
    C.Keeps none 0 t (do return g (← op)) IssuedBy := by
  refine hop.bind fun r d t' hr => Keeps.of_wellFormed fun hwf => Keeps.pure ?_
  cases r with
  | error e => exact ⟨hr.1, fun x hx => by simp [herror] at hx⟩
  | ok a =>
      refine ⟨hr.1, fun x hx => ?_⟩
      rw [hok, List.mem_singleton] at hx
      rw [hx]
      exact hissues a t' hwf hr.2

/-- A command keeps a contract if all that it may do keeps it: growing, for those that make room,
linking, taking out and replacing. -/
theorem keeps_run_of (cmd : Command V K) (henv : C.Obeyed env)
    (hgrows : cmd.makesRoom = true → C.Grows)
    (hlinks : cmd.isInsertion = true → C.Links cmd.isInsertAny)
    (hunlinks : cmd.isRemoval = true → C.Unlinks) (hedits : cmd.isEdit = true → C.Edits)
    (hmisuse : ∀ p, Panic.isMisuse p = true → C.panics p) :
    C.Keeps none 0 t (cmd.run env) IssuedBy := by
  have hrefusal : ∀ e, C.refuses e → C.panics (.allocationFailed e) := fun _ _ => hmisuse _ rfl
  cases cmd with
  | insertNew value =>
      exact keeps_insert (keeps_insertNew henv ((hgrows rfl).to t _) (hlinks rfl) value)
        (fun p t' hwf hp => issues_placed hwf hp) (fun _ => rfl) fun _ => rfl
  | insertNew! value =>
      refine keeps_cursor
        ((keeps_insertNew henv ((hgrows rfl).to t _) (hlinks rfl) value).infallible
          fun e _ _ hr => ⟨hr.1, hrefusal e hr.2.2⟩) (fun _ => rfl) ?_
      intro p d t' hwf hp
      exact ⟨hp.1, issues_placed hwf hp.2⟩
  | insertAny value =>
      exact keeps_insert (keeps_insertAny henv ((hgrows rfl).to t _) (hlinks rfl) value)
        (fun c t' _ hc => issues_added hc) (fun _ => rfl) fun _ => rfl
  | insertAny! value =>
      refine keeps_cursor
        ((keeps_insertAny henv ((hgrows rfl).to t _) (hlinks rfl) value).infallible
          fun e _ _ hr => ⟨hr.1, hrefusal e hr.2.2⟩) (fun _ => rfl) ?_
      intro c d t' _ hc
      exact ⟨hc.1, issues_added hc.2⟩
  | find key =>
      refine keeps_cursor (keeps_find henv key) (fun _ => rfl) ?_
      intro c d t' hwf hc
      obtain ⟨rfl, rfl, hash, k, -, hk, rfl⟩ := hc
      exact ⟨rfl, issues_firstMatch hwf hk⟩
  | contains key =>
      exact keeps_plain (keeps_contains henv key) (fun _ _ _ ha => ha.1) fun _ => rfl
  | count key => exact keeps_plain (keeps_count henv key) (fun _ _ _ ha => ha.1) fun _ => rfl
  | range key =>
      refine (keeps_range henv key).bind fun p d t' hp =>
        Keeps.of_wellFormed fun hwf => Keeps.pure ?_
      obtain ⟨rfl, rfl, hash, r, -, hr, rfl⟩ := hp
      obtain ⟨hstart, hstop⟩ := issues_rangeOf hwf hr
      refine ⟨rfl, fun x hx => ?_⟩
      rcases List.mem_cons.1 hx with rfl | hx
      · exact hstart
      · rw [List.mem_singleton.1 hx]
        exact hstop
  | iteratorOf key =>
      exact keeps_plain (keeps_iteratorOf henv key) (fun _ _ _ ha => ha.1) fun _ => rfl
  | homeBucket key =>
      exact keeps_plain (keeps_homeBucket henv key) (fun _ _ _ ha => ha.1) fun _ => rfl
  | check => exact keeps_plain (keeps_check henv) (fun _ _ _ ha => ha.1) fun _ => rfl
  | erase c =>
      refine keeps_at hmisuse rfl ?_
      intro k n hwf hcell
      refine keeps_cursor (keeps_erase henv (hunlinks rfl) hcell) (fun _ => rfl) ?_
      intro c' d t' _ hc
      obtain ⟨rfl, rfl, rfl⟩ := hc
      exact ⟨rfl, issues_without hwf (element?_of_cell hcell).2⟩
  | remove c =>
      refine keeps_at hmisuse rfl ?_
      intro k n hwf hcell
      exact keeps_plain (keeps_remove henv (hunlinks rfl) hcell) (fun _ _ _ hv => hv.1)
        fun _ => rfl
  | eraseRun key =>
      exact keeps_plain (keeps_eraseRun henv (hunlinks rfl) key) (fun _ _ _ ha => ha.1)
        fun _ => rfl
  | clear =>
      exact (keeps_clear henv (hunlinks rfl)).bind fun _ d t' hr =>
        Keeps.pure ⟨hr.1, fun x hx => by cases hx⟩
  | rehash hint =>
      refine keeps_plain (keeps_rehash henv ((hgrows rfl).to t _)) (fun r _ _ hr => ?_) fun _ => rfl
      cases r with
      | ok u => exact hr.1
      | error e => exact hr.1
  | rehash! hint =>
      exact keeps_plain (keeps_rehash! henv ((hgrows rfl).to t _) hrefusal) (fun _ _ _ hr => hr.1)
        fun _ => rfl
  | reserve additional =>
      refine keeps_plain (keeps_reserve henv ((hgrows rfl).to t _)) (fun r _ _ hr => ?_)
        fun _ => rfl
      rcases hr with ⟨-, -, rfl, -⟩ | hr
      · rfl
      · cases r with
        | ok u => exact hr.1
        | error e => exact hr.1
  | reserve! additional =>
      exact keeps_plain (keeps_reserve! henv ((hgrows rfl).to t _) hrefusal
        fun _ => hmisuse _ rfl) (fun _ _ _ hr => hr.1) fun _ => rfl
  | first =>
      refine Keeps.of_wellFormed fun hwf => Keeps.bindRead (Keeps.pure ⟨rfl, fun x hx => ?_⟩)
      rw [List.mem_singleton.1 hx]
      exact issues_first hwf
  | past =>
      refine Keeps.bindRead (Keeps.pure ⟨rfl, fun x hx => ?_⟩)
      rw [List.mem_singleton.1 hx]
      exact issues_end
  | next c =>
      refine keeps_at hmisuse rfl ?_
      intro k n hwf hcell
      have hnext : (t.fencedBy none).next c = .ok (t.cursor (t.chains.successor k)) := by
        rw [Table.next, show (t.fencedBy none).cell c = _ from hcell]
        rfl
      refine Keeps.bindQuery hnext (Keeps.pure ⟨rfl, fun x hx => ?_⟩)
      rw [List.mem_singleton.1 hx]
      exact issues_successor hwf (element?_of_cell hcell).2
  | get c =>
      refine keeps_at hmisuse rfl ?_
      intro k n hwf hcell
      have hget : (t.fencedBy none).get c = .ok n.value := by
        rw [Table.get, show (t.fencedBy none).cell c = _ from hcell]
        rfl
      exact Keeps.bindQuery hget (Keeps.pure ⟨rfl, fun x hx => by cases hx⟩)
  | modify c f =>
      refine keeps_at hmisuse rfl ?_
      intro k n hwf hcell
      exact (keeps_modify (hedits rfl) hcell f).bind fun _ d t' hr =>
        Keeps.pure ⟨hr.1, fun x hx => by cases hx⟩
  | iterate => exact Keeps.bindRead (Keeps.pure ⟨rfl, fun x hx => by cases hx⟩)
  | bucketSize i =>
      refine keeps_plain (keeps_query hmisuse fun p hp => ?_) (fun _ _ _ hr => hr.1) fun _ => rfl
      rw [Table.bucketSize] at hp
      split at hp
      · cases hp
      · cases hp
        rfl

/-- Every command keeps a contract that suits it. -/
theorem keeps_run (cmd : Command V K) (h : C.Suits env cmd) :
    C.Keeps none 0 t (cmd.run env) IssuedBy :=
  keeps_run_of cmd h.obeyed (fun _ => h.grows) (fun _ => h.links) h.unlinks h.edits h.misuse

end Command

/-! ## What commands make of tables -/

namespace Table

variable {V K W : Type} {env : Environment V K W} {t t' : Table V}

/-- Between its operations a table is well formed and its fence is down. -/
structure Sound (t : Table V) : Prop where
  wellFormed : t.chains.WellFormed
  fence : t.fence = none

/-- One change of a table: it grows, or one element is linked, taken out or given another value.
The flags say whether the last two may happen. -/
inductive Change (removal edit : Bool) : Table V → Table V → Prop
  | grow {t t' : Table V} {n : Nat} (wellFormed : t.chains.WellFormed) (more : t.bucketCount < n)
      (grown : t.Grown n t') : Change removal edit t t'
  | link {t : Table V} {p : Chains.Place} {v : V} {hash : UInt64}
      (wellFormed : t.chains.WellFormed) (fits : t.Fits hash p) :
      Change removal edit t (t.linked p v hash)
  | unlink {t : Table V} {k : ArenaKey} {e : Element V} (allowed : removal = true)
      (wellFormed : t.chains.WellFormed) (live : t.chains.element? k = some e) :
      Change removal edit t (t.without k)
  | edit {t : Table V} {k : ArenaKey} {f : V → V} {n : Node V} (allowed : edit = true)
      (wellFormed : t.chains.WellFormed) (live : t.chains.nodes.get? k = some n) :
      Change removal edit t (t.edited k f)

/-- Any number of changes. -/
abbrev Changes (removal edit : Bool) : Table V → Table V → Prop :=
  Relation.ReflTransGen (Change removal edit)

theorem Changes.same {removal edit : Bool} (h : Changes removal edit t t') :
    t'.id = t.id ∧ t'.fence = t.fence := by
  induction h with
  | refl => exact ⟨rfl, rfl⟩
  | tail _ hchange ih =>
      obtain ⟨hid, hfence⟩ := ih
      rw [← hid, ← hfence]
      cases hchange with
      | grow wellFormed more grown => exact ⟨grown.id, grown.fence⟩
      | link wellFormed fits => exact ⟨rfl, rfl⟩
      | unlink allowed wellFormed live => exact ⟨rfl, rfl⟩
      | edit allowed wellFormed live => exact ⟨rfl, rfl⟩

end Table

namespace Command

variable {V K W : Type} {env : Environment V K W} {cmd : Command V K} {t t' : Table V}

/-- A command turns `t` into `t'`, whether it answers or panics. -/
def Takes (env : Environment V K W) (cmd : Command V K) (t t' : Table V) : Prop :=
  ∃ w w', (∃ a, cmd.run env ⟨t, w⟩ = .ok a ⟨t', w'⟩) ∨ ∃ p, cmd.run env ⟨t, w⟩ = .error p ⟨t', w'⟩

/-- The changes of a table suit a command that may make them. -/
theorem suits_wild (env : Environment V K W) (cmd : Command V K) (t : Table V) :
    (Contract.wild env.Panics (Table.Changes cmd.isRemoval cmd.isEdit t)).Suits env cmd where
  obeyed := Contract.obeyed_wild env _
  grows := .of_tables (fun _ _ _ => Iff.rfl)
    fun _ _ _ hwf _ hmore hgrown h => h.tail (.grow hwf hmore hgrown)
  links _ _ _ _ _ hwf _ hsought h := h.tail (.link hwf hsought.fits)
  unlinks hremoval _ _ _ _ hwf hlive h := h.tail (.unlink hremoval hwf hlive)
  edits hedit _ _ _ _ _ hwf hlive h := h.tail (.edit hedit hwf hlive)
  misuse _ hp := Or.inl hp

/-- A command run on a sound table, whatever the environment does: it leaves a sound table, made by
changes that the command may make. It panics only if it is misused or the environment panics, and
the cursors that it answers with are issued by the table it leaves. -/
theorem run_spec (ht : t.Sound) (env : Environment V K W) (cmd : Command V K) (w : W) :
    match cmd.run env ⟨t, w⟩ with
    | .ok a s => Table.Changes cmd.isRemoval cmd.isEdit t s.table ∧ s.table.Sound
        ∧ ∀ c ∈ a.issued, s.table.Issues c
    | .error p s => Table.Changes cmd.isRemoval cmd.isEdit t s.table ∧ s.table.Sound
        ∧ env.Panics p := by
  have hkeeps := keeps_run (t := t) cmd (suits_wild env cmd t)
  cases hrun : cmd.run env ⟨t, w⟩ with
  | ok a s =>
      obtain ⟨d, t', htable, hchanges, hwf, -, hissued⟩ :=
        hkeeps.of_run_ok ht.fence ht.wellFormed .refl hrun
      have hfence : t'.fence = none := (Table.Changes.same hchanges).2.trans ht.fence
      rw [Table.fencedBy_eq hfence] at htable
      obtain ⟨table, world⟩ := s
      obtain rfl : table = t' := htable
      exact ⟨hchanges, ⟨hwf, hfence⟩, hissued⟩
  | error p s =>
      obtain ⟨t', htable, hchanges, hwf, hpanic⟩ :=
        hkeeps.of_run_error ht.fence ht.wellFormed .refl hrun
      have hfence : t'.fence = none := (Table.Changes.same hchanges).2.trans ht.fence
      rw [Table.fencedBy_eq hfence] at htable
      obtain ⟨table, world⟩ := s
      obtain rfl : table = t' := htable
      exact ⟨hchanges, ⟨hwf, hfence⟩, hpanic⟩

theorem Takes.changes (h : cmd.Takes env t t') (ht : t.Sound) :
    Table.Changes cmd.isRemoval cmd.isEdit t t' ∧ t'.Sound := by
  rcases h with ⟨w, w', ⟨a, hrun⟩ | ⟨p, hrun⟩⟩
  · have hspec := run_spec ht env cmd w
    rw [hrun] at hspec
    exact ⟨hspec.1, hspec.2.1⟩
  · have hspec := run_spec ht env cmd w
    rw [hrun] at hspec
    exact ⟨hspec.1, hspec.2.1⟩

end Command

end SeparateChaining
