import SeparateChaining.Collection.Basic
import SeparateChaining.Proofs.Cursors
import SeparateChaining.Proofs.Simulation

/-!
# What the operations of collections come down to

A collection has coherent policies that are plain functions, and storage
that is taken back without complaint (`Supply.TakesBack`). There only
one thing keeps an operation from its end: that it is refused storage.
`Serves` says of an operation that it ends with an answer, or with the
panic that reports a refusal, and what is left of the table either way.
Operations of collections are put together from commands of the table,
and what is refused is what one of these has asked for, in the state to
which those before it have led (`Op.Denied`). For commands `Serves`
follows from what they do to bags (`Command.serves`), and it has a law
for doing one after the other, so a collection's own operations are gone
through as they are written.
-/

namespace SeparateChaining

variable {V K T W α β : Type}

/-- Elements that are their own keys. -/
abbrev Policies.ofKeys (hash : K → UInt64) (eq : K → K → Bool) : Policies K K :=
  ⟨Extract.whole, hash, eq⟩

/-- Elements whose keys are their first halves. -/
abbrev Policies.ofPairs (hash : K → UInt64) (eq : K → K → Bool) : Policies (K × T) K :=
  ⟨Extract.first, hash, eq⟩

/-- Coherence is about keys, wherever they are in the elements. -/
theorem Policies.Coherent.ofPairs {hash : K → UInt64} {eq : K → K → Bool}
    (hp : (ofKeys hash eq).Coherent) : (Policies.ofPairs hash eq : Policies (K × T) K).Coherent :=
  ⟨hp.refl, hp.symm, hp.trans, hp.hash⟩

/-- A sound table that is keyed. -/
structure Table.Kept (p : Policies V K) (t : Table V) : Prop where
  sound : t.Sound
  keyed : t.Keyed p

theorem Command.eq_after {env : Environment V K W} {cmd : Command V K} {s s' : Running V W}
    {a : Answer V} (h : cmd.run env s = .ok a s') : s' = after env [cmd] s := by
  show s' = step env s cmd
  rw [step, h]

/-- The panic that reports a refusal. -/
def Panic.IsRefusal (q : Panic) : Prop := ∃ e, q = .allocationFailed e

/-- Commands are carried out from `s` on, until one is denied what it asks for and panics. -/
inductive Op.Denied (env : Environment V K W) (s : Running V W) : Panic → Running V W → Prop
  | intro (cmds : List (Command V K)) (cmd : Command V K) {e : AllocError} {s' : Running V W}
      (denied : cmd.Denied env (Command.after env cmds s).world (Command.after env cmds s).table e)
      (run : cmd.run env (Command.after env cmds s) = .error (.allocationFailed e) s') :
      Denied env s (.allocationFailed e) s'

theorem Op.Denied.isRefusal {env : Environment V K W} {s s' : Running V W} {q : Panic}
    (h : Op.Denied env s q s') : q.IsRefusal := by
  cases h with
  | intro cmds cmd denied run => exact ⟨_, rfl⟩

/-- The operation that starts from `s` ends well, by what commands do: it answers, or it panics
because a command is denied storage. -/
def Op.Ends (p : Policies V K) (env : Environment V K W) (s : Running V W)
    (post : α → Table V → Prop) (cut : Table V → Prop) :
    EStateM.Result Panic (Running V W) α → Prop
  | .ok a s' => s'.table.Kept p ∧ post a s'.table ∧ ∃ cmds, s' = Command.after env cmds s
  | .error q s' => s'.table.Kept p ∧ cut s'.table ∧ Op.Denied env s q s'

/-- What starts from the state to which commands have led starts where they do. -/
theorem Op.Ends.of_after {p : Policies V K} {env : Environment V K W} {s : Running V W}
    {post : α → Table V → Prop} {cut : Table V → Prop} (cmds : List (Command V K))
    {r : EStateM.Result Panic (Running V W) α}
    (h : Op.Ends p env (Command.after env cmds s) post cut r) : Op.Ends p env s post cut r := by
  have happend : ∀ cmds', Command.after env (cmds ++ cmds') s
      = Command.after env cmds' (Command.after env cmds s) := fun _ => List.foldl_append
  cases r with
  | ok a s' =>
      obtain ⟨hkept, hpost, cmds', hleft⟩ := h
      exact ⟨hkept, hpost, cmds ++ cmds', hleft.trans (happend cmds').symm⟩
  | error q s' =>
      obtain ⟨hkept, hcut, hdenied⟩ := h
      refine ⟨hkept, hcut, ?_⟩
      cases hdenied with
      | intro cmds' cmd denied run =>
          rw [← happend] at denied run
          exact .intro (cmds ++ cmds') cmd denied run

/-- On the table `t` the operation ends well: with an answer and a table that `post` relates, or
refused, with a table of which `cut` holds. -/
def Serves (p : Policies V K) (sup : Supply W) (t : Table V) (op : Op W V α)
    (post : α → Table V → Prop) (cut : Table V → Prop) : Prop :=
  ∀ w, Op.Ends p (p.environment sup) ⟨t, w⟩ post cut (op ⟨t, w⟩)

namespace Serves

variable {p : Policies V K} {sup : Supply W} {t : Table V} {op : Op W V α}
  {post mid : α → Table V → Prop} {cut : Table V → Prop}

theorem pure {a : α} (ht : t.Kept p) (h : post a t) :
    Serves p sup t (Pure.pure a) post cut :=
  fun _ => ⟨ht, h, [], rfl⟩

theorem read {f : Table V → α} (ht : t.Kept p) (h : post (f t) t) :
    Serves p sup t (Op.read f) post cut :=
  fun _ => ⟨ht, h, [], rfl⟩

theorem mono {cut' : Table V → Prop} (h : Serves p sup t op mid cut')
    (hpost : ∀ a t', t'.Kept p → mid a t' → post a t') (hcut : ∀ t', cut' t' → cut t') :
    Serves p sup t op post cut := by
  intro w
  have hends := h w
  cases hrun : op ⟨t, w⟩ with
  | ok a s =>
      rw [hrun] at hends
      exact ⟨hends.1, hpost a s.table hends.1 hends.2.1, hends.2.2⟩
  | error q s =>
      rw [hrun] at hends
      exact ⟨hends.1, hcut s.table hends.2.1, hends.2.2⟩

theorem monoPost (h : Serves p sup t op mid cut)
    (hpost : ∀ a t', t'.Kept p → mid a t' → post a t') : Serves p sup t op post cut :=
  h.mono hpost fun _ h => h

theorem monoCut {cut' : Table V → Prop} (h : Serves p sup t op post cut')
    (hcut : ∀ t', cut' t' → cut t') : Serves p sup t op post cut :=
  h.mono (fun _ _ _ h => h) hcut

/-- What cannot be refused. -/
theorem uncut (h : Serves p sup t op post fun _ => False) : Serves p sup t op post cut :=
  h.monoCut fun _ h => h.elim

/-- What comes second starts from what is left by what comes first. -/
theorem bind {g : α → Op W V β} {post : β → Table V → Prop} (hop : Serves p sup t op mid cut)
    (hg : ∀ a t', t'.Kept p → mid a t' → Serves p sup t' (g a) post cut) :
    Serves p sup t (op >>= g) post cut := by
  intro w
  have hends := hop w
  cases hrun : op ⟨t, w⟩ with
  | ok a s =>
      rw [hrun] at hends
      obtain ⟨hkept, hmid, cmds, hleft⟩ := hends
      rw [Op.run_bind_ok hrun]
      exact .of_after cmds (hleft ▸ hg a s.table hkept hmid s.world)
  | error q s =>
      rw [hrun] at hends
      rw [Op.run_bind_error hrun]
      exact hends

theorem bindQuery {f : Table V → Except Panic α} {a : α} {g : α → Op W V β}
    {post : β → Table V → Prop} (hf : f t = .ok a) (hg : Serves p sup t (g a) post cut) :
    Serves p sup t (Op.query f >>= g) post cut := by
  intro w
  rw [Op.run_query_bind hf]
  exact hg w

/-- An answer that is only looked at through `g`. -/
theorem map {g : α → β} {post : β → Table V → Prop}
    (hop : Serves p sup t op (fun a t' => post (g a) t') cut) :
    Serves p sup t (do return g (← op)) post cut :=
  hop.bind fun _ _ ht' ha => pure ht' ha

/-- The answer is known. -/
theorem answer {a : α} {g : α → β} {post : Table V → Prop}
    (hop : Serves p sup t op (fun b t' => b = a ∧ post t') cut) :
    Serves p sup t (do return g (← op)) (fun b t' => b = g a ∧ post t') cut :=
  (hop.monoPost fun _ _ _ h => ⟨congrArg g h.1, h.2⟩).map

theorem discard {post : Unit → Table V → Prop}
    (hop : Serves p sup t op (fun _ t' => post () t') cut) :
    Serves p sup t (discard op) post cut :=
  hop.map

/-- Doing something for each of a list. What is left when `n` of it are done is `I n`, and of
that is cut what is refused on the way. -/
theorem forM {γ : Type} {f : γ → Op W V Unit} {xs : List γ} {I : Nat → Table V → Prop}
    (ht : t.Kept p) (h : I 0 t)
    (hf : ∀ n x t', xs[n]? = some x → t'.Kept p → I n t' →
      Serves p sup t' (f x) (fun _ t'' => I (n + 1) t'') (I n)) :
    Serves p sup t (xs.forM f) (fun _ t' => I xs.length t')
      fun t' => ∃ n < xs.length, I n t' := by
  induction xs generalizing t I with
  | nil => exact pure ht h
  | cons x xs ih =>
      refine bind ((hf 0 x t rfl ht h).monoCut fun t' h => ⟨0, Nat.succ_pos _, h⟩) ?_
      intro _ t' ht' h'
      refine (ih (I := fun n => I (n + 1)) ht' h' fun n x => hf (n + 1) x).monoCut ?_
      rintro t'' ⟨n, hn, h''⟩
      exact ⟨n + 1, Nat.succ_lt_succ hn, h''⟩

end Serves

/-! ## Commands of the table -/

namespace Command

variable {p : Policies V K} {sup : Supply W} {t : Table V} {cmd : Command V K}

/-- Whether a command may need storage, of those that collections make use of. -/
def needsStorage : Command V K → Bool
  | insertNew! _ | insertAny! _ => true
  | _ => false

/-- Whether collections make use of a command. None of these reports a refusal but by a panic. -/
def isInUse : Command V K → Bool
  | insertNew! _ | insertAny! _ | find _ | contains _ | count _ | iteratorOf _ | erase _ | remove _
  | eraseRun _ | clear | get _ | modify _ _ => true
  | _ => false

theorem not_misused (huse : cmd.isInUse = true)
    (hget : ∀ c, cmd.target? = some c → ∃ v, t.get c = .ok v) (q : Panic) : ¬cmd.Misused t q := by
  rintro (⟨c, hc, hcell⟩ | ⟨i, rfl, -⟩)
  · obtain ⟨v, hv⟩ := hget c hc
    rw [Table.get, hcell] at hv
    cases hv
  · cases huse

theorem eq_of_refusal? (huse : cmd.isInUse = true) {e : AllocError} {s : Running V W}
    {r : EStateM.Result Panic (Running V W) (Answer V)} (h : cmd.refusal? e s = some r) :
    r = .error (.allocationFailed e) s ∧ cmd.needsStorage = true := by
  cases cmd with
  | insertNew! v => exact ⟨(Option.some.inj h).symm, rfl⟩
  | insertAny! v => exact ⟨(Option.some.inj h).symm, rfl⟩
  | insertNew | insertAny | rehash | reserve | rehash! | reserve! => cases huse
  | _ => cases h

section Served

variable (hp : p.Coherent) (hsup : sup.TakesBack) (ht : t.Kept p)

include hp hsup ht

/-- What a command does to the bag is what the operation does that it comes down to. -/
theorem serves {op : Op W V α} (cmd : Command V K) (g : α → Answer V)
    (hrun : cmd.run (p.environment sup) = do return g (← op)) (hkeys : cmd.KeepsKeys p t)
    (huse : cmd.isInUse = true) (hget : ∀ c, cmd.target? = some c → ∃ v, t.get c = .ok v) :
    Serves p sup t op (fun a t' => cmd.Simulates p t t' (g a))
      fun t' => cmd.needsStorage = true ∧ t'.bag = t.bag := by
  intro w
  have hsteady : Steady p (fun _ _ => True) ⟨t, w⟩ := ⟨ht.sound, ht.keyed, trivial⟩
  obtain ⟨hout, hleft⟩ := comes hp (p.follows_takesBack hsup) hsteady cmd
  have hkept := hleft hkeys
  rw [Command.step] at hkept
  cases hop : op ⟨t, w⟩ with
  | ok a s =>
      have hres : cmd.run (p.environment sup) ⟨t, w⟩ = .ok (g a) s := by
        rw [hrun]
        exact Op.run_bind_ok hop
      rw [hres] at hout hkept
      refine ⟨⟨hkept.sound, hkept.keyed⟩, ?_, [cmd], eq_after hres⟩
      cases hout with
      | done simulates => exact simulates
      | refused report why bag => cases (eq_of_refusal? huse report).1
  | error q s =>
      have hres : cmd.run (p.environment sup) ⟨t, w⟩ = .error q s := by
        rw [hrun]
        exact Op.run_bind_error hop _
      rw [hres] at hout hkept
      refine ⟨⟨hkept.sound, hkept.keyed⟩, ?_⟩
      -- cursors are those that were found, so nothing is misused, and only a refusal is left
      cases hout with
      | @refused e _ _ report why bag =>
          obtain ⟨hr, hneeds⟩ := eq_of_refusal? huse report
          cases hr
          exact ⟨⟨hneeds, bag⟩, .intro [] cmd why hres⟩
      | misused why same => exact absurd why (not_misused huse hget q)

/-- A command that needs no storage is not refused. -/
theorem answers {op : Op W V α} (cmd : Command V K) (g : α → Answer V)
    (hrun : cmd.run (p.environment sup) = do return g (← op)) (hkeys : cmd.KeepsKeys p t)
    (huse : cmd.isInUse = true) (hneeds : cmd.needsStorage = false)
    (hget : ∀ c, cmd.target? = some c → ∃ v, t.get c = .ok v) :
    Serves p sup t op (fun a t' => cmd.Simulates p t t' (g a)) fun _ => False := by
  refine (serves hp hsup ht cmd g hrun hkeys huse hget).monoCut ?_
  rintro t' ⟨hyes, -⟩
  rw [hneeds] at hyes
  cases hyes

end Served

end Command

namespace Table

variable {p : Policies V K} {sup : Supply W} {t : Table V}

open Command

theorem cell_of_get {c : Cursor} {v : V} (hc : t.get c = .ok v) :
    ∃ k n, t.cell c = .ok (k, n) ∧ n.value = v := by
  rw [get] at hc
  cases hcell : t.cell c with
  | error q =>
      rw [hcell] at hc
      cases hc
  | ok cell =>
      rw [hcell] at hc
      exact ⟨cell.1, cell.2, rfl, Except.ok.inj hc⟩

section Served

variable (hp : p.Coherent) (hsup : sup.TakesBack) (ht : t.Kept p)

include hp hsup ht

theorem serves_find (q : K) :
    Serves p sup t (find (p.environment sup) q)
      (fun c t' => t'.bag = t.bag ∧ (c.isEnd = true ↔ ∀ v ∈ t.bag, p.hasKey q v = false)
        ∧ (c.isEnd = false → ∃ v ∈ t.bag, t'.get c = .ok v ∧ p.hasKey q v = true))
      fun _ => False :=
  answers hp hsup ht (.find q) .cursor rfl trivial rfl rfl fun _ h => nomatch h

theorem serves_contains (q : K) :
    Serves p sup t (contains (p.environment sup) q)
      (fun b t' => t'.bag = t.bag ∧ (b = true ↔ ∃ v ∈ t.bag, p.hasKey q v = true))
      fun _ => False :=
  answers hp hsup ht (.contains q) .flag rfl trivial rfl rfl fun _ h => nomatch h

theorem serves_count (q : K) :
    Serves p sup t (count (p.environment sup) q)
      (fun n t' => t'.bag = t.bag ∧ n = t.bag.countP (p.hasKey q · = true)) fun _ => False :=
  answers hp hsup ht (.count q) .number rfl trivial rfl rfl fun _ h => nomatch h

theorem serves_iteratorOf (q : K) :
    Serves p sup t (iteratorOf (p.environment sup) q)
      (fun it t' => t'.bag = t.bag ∧ ↑it.toList = t.bag.filter (p.hasKey q · = true))
      fun _ => False :=
  answers hp hsup ht (.iteratorOf q) (fun it : Iterator V => .values it.toList) rfl trivial rfl rfl
    fun _ h => nomatch h

theorem serves_insertNew! (v : V) :
    Serves p sup t (insertNew! (p.environment sup) v) (fun r t' => Offered p t t' v r)
      (·.bag = t.bag) :=
  (serves hp hsup ht (.insertNew! v) (fun r => .placement (.ok r)) rfl trivial rfl
    fun _ h => nomatch h).monoCut fun _ h => h.2

/-- If there is an element with the key, nothing is done but that room is made. -/
theorem serves_insertNew!_resident {u v : V} (hu : u ∈ t.bag)
    (hkey : p.hasKey (p.extract v) u = true) :
    Serves p sup t (insertNew! (p.environment sup) v)
      (fun r t' => r.isLinked = false ∧ t.Widened t') t.Widened := by
  have henv := p.follows_takesBack hsup
  have hwf := ht.sound.wellFormed
  intro w
  obtain ⟨r, t', w', d, hrun, hsound, -, hr⟩ := Contract.exact_ends
    (keeps_insertNew (Contract.obeyed_exact henv) (Contract.grows_exact.to _ _)
      Contract.links_exact v) ht.sound (w := w) trivial
  cases r with
  | error e =>
      obtain ⟨-, hspared, -⟩ := hr
      have hwide := hspared.widened hwf
      have hpanic := Op.run_infallible_error hrun
      rw [insertNew!, hpanic]
      exact ⟨⟨hsound, ht.keyed.widened hp hwf hwide⟩, hwide, .intro [] (.insertNew! v)
        (refused_of_insertNew hwf ht.sound.fence hrun) (Op.run_bind_error hpanic _)⟩
  | ok r =>
      have hplaced := hr.2
      have hsteady : Steady p (fun _ _ => True) ⟨t, w⟩ := ⟨ht.sound, ht.keyed, trivial⟩
      obtain ⟨hoffered, hkeyed⟩ := offered hp hsteady hplaced
      have hanswer := Op.run_infallible_ok hrun
      rw [insertNew!, hanswer]
      have hres : (Command.insertNew! v).run (p.environment sup) ⟨t, w⟩ = .ok _ _ :=
        Op.run_bind_ok hanswer
      refine ⟨⟨hsound, hkeyed⟩, ?_, [.insertNew! v], eq_after hres⟩
      cases hplaced with
      | linked room key hashed new =>
          rw [hoffered.1 u hu] at hkey
          cases hkey
      | resident room key hashed found => exact ⟨rfl, room ▸ widened_roomFor hwf _⟩

theorem serves_insertAny! (v : V) :
    Serves p sup t (insertAny! (p.environment sup) v)
      (fun c t' => t'.bag = v ::ₘ t.bag ∧ t'.get c = .ok v) (·.bag = t.bag) :=
  (serves hp hsup ht (.insertAny! v) (fun c => .position (.ok c)) rfl trivial rfl
    fun _ h => nomatch h).monoCut fun _ h => h.2

theorem serves_eraseRun (q : K) :
    Serves p sup t (eraseRun (p.environment sup) q)
      (fun n t' => t'.bag = t.bag.filter (p.hasKey q · = false)
        ∧ n = t.bag.countP (p.hasKey q · = true)) fun _ => False :=
  answers hp hsup ht (.eraseRun q) .number rfl trivial rfl rfl fun _ h => nomatch h

theorem serves_clear :
    Serves p sup t (clear (p.environment sup)) (fun _ t' => t'.bag = 0) fun _ => False :=
  answers hp hsup ht .clear (fun _ => .done) rfl trivial rfl rfl fun _ h => nomatch h

theorem serves_erase {c : Cursor} {v : V} (hc : t.get c = .ok v) :
    Serves p sup t (erase (p.environment sup) c) (fun _ t' => t.bag = v ::ₘ t'.bag)
      fun _ => False := by
  refine (answers hp hsup ht (.erase c) .cursor rfl trivial rfl rfl ?_).monoPost ?_
  · intro c' htarget
    cases htarget
    exact ⟨v, hc⟩
  · rintro c' t' - ⟨⟨u, hu, hbag⟩, -⟩
    cases hc.symm.trans hu
    exact hbag

theorem serves_remove {c : Cursor} {v : V} (hc : t.get c = .ok v) :
    Serves p sup t (remove (p.environment sup) c) (fun u t' => u = v ∧ t.bag = v ::ₘ t'.bag)
      fun _ => False := by
  refine (answers hp hsup ht (.remove c) .value rfl trivial rfl rfl ?_).monoPost ?_
  · intro c' htarget
    cases htarget
    exact ⟨v, hc⟩
  · rintro u t' - ⟨hu, hbag⟩
    cases hc.symm.trans hu
    exact ⟨rfl, hbag⟩

end Served

/-- An element may be replaced by one with an equal key. -/
theorem serves_modifyAt (ht : t.Kept p) (hp : p.Coherent) {c : Cursor} {v : V}
    (hc : t.get c = .ok v) {f : V → V} (hf : p.hasKey (p.extract v) (f v) = true) :
    Serves p sup t (Collection.modifyAt c f)
      (fun _ t' => (∃ rest, t.bag = v ::ₘ rest ∧ t'.bag = f v ::ₘ rest) ∧ t'.get c = .ok (f v))
      fun _ => False := by
  have hwf := ht.sound.wellFormed
  obtain ⟨k, n, hcell, rfl⟩ := cell_of_get hc
  obtain ⟨htable, hgrowths, hnode, hn⟩ := cell_eq_ok_iff.1 hcell
  have hcell' : (t.edited k f).cell c = .ok (k, { n with value := f n.value }) := by
    refine cell_eq_ok_iff.2 ⟨htable, hgrowths, hnode, ?_⟩
    rw [get?_edited, hn]
    simp
  intro w
  have hrun : Collection.modifyAt c f ⟨t, w⟩ = .ok () ⟨t.edited k f, w⟩ := by
    rw [Collection.modifyAt, Op.update]
    simp only [modify_eq hcell]
    rfl
  rw [hrun]
  refine ⟨⟨⟨wellFormed_edited hwf k f, ht.sound.fence⟩, ht.keyed.edited hp hwf hn hf⟩,
    ⟨⟨_, bag_without hwf (Chains.element?_eq_some.2 ⟨n, hn, rfl⟩), bag_edited hwf hn f⟩, ?_⟩,
    [.modify c f], eq_after (run_modify hcell f w)⟩
  rw [get, hcell']
  rfl

end Table

end SeparateChaining
