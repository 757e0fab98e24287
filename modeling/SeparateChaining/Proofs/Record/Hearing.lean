import SeparateChaining.Proofs.Command
import SeparateChaining.Proofs.Record

/-!
# Recording what is asked

Where an operation calls policies it leaves its table as it is. `Hears`
says what goes on the record while such a part of an operation runs,
beside what it comes to. The laws of `Hears` follow the operations of
`Op`: what is asked in two steps is asked in their order, a panic of a
policy ends everything (`PassesOn`), so its call is the last, and with
the fence up that is what policies see.
-/

namespace SeparateChaining

variable {V K W α β : Type}

/-! ## Recording an operation -/

/-- What an operation came to. -/
def Op.outcome {S : Type} : EStateM.Result Panic S α → Except Panic α
  | .ok a _ => .ok a
  | .error p _ => .error p

/-- A panic of a policy is what comes of the operation that called it. -/
def PassesOn (r : Except Panic α) (asked : List (Consultation V K)) : Prop :=
  ∀ c ∈ asked, ∀ p, c.panic? = some p → r = .error p

/-- On `t`, which `op` leaves as it is, `op'` does what `op` does and puts on record what it asks
policies, all of which see `seen`. -/
def Hears (seen t : Table V) (op' : Op (W × List (Heard V K)) V α) (op : Op W V α)
    (post : Except Panic α → List (Consultation V K) → Prop) : Prop :=
  ∀ w past, ∃ asked,
    op' ⟨t, (w, past)⟩ = Op.attach (past ++ asked.map (Heard.mk seen)) (op ⟨t, w⟩)
    ∧ Op.Leaves t (op ⟨t, w⟩) ∧ PassesOn (Op.outcome (op ⟨t, w⟩)) asked
    ∧ post (Op.outcome (op ⟨t, w⟩)) asked

namespace Hears

variable {seen t : Table V} {post : Except Panic β → List (Consultation V K) → Prop}

theorem mono {op' : Op (W × List (Heard V K)) V β} {op : Op W V β}
    {post' : Except Panic β → List (Consultation V K) → Prop} (h : Hears seen t op' op post)
    (himp : ∀ r asked, post r asked → post' r asked) : Hears seen t op' op post' := by
  intro w past
  obtain ⟨asked, hrun, hleaves, hpasses, hpost⟩ := h w past
  exact ⟨asked, hrun, hleaves, hpasses, himp _ _ hpost⟩

theorem silent {op' : Op (W × List (Heard V K)) V β} {op : Op W V β} (hop : op' = op.beside)
    (hleaves : ∀ w, Op.Leaves t (op ⟨t, w⟩)) (h : ∀ w, post (Op.outcome (op ⟨t, w⟩)) []) :
    Hears seen t op' op post := by
  intro w past
  refine ⟨[], ?_, hleaves w, (fun c hc => by cases hc), h w⟩
  rw [hop, Op.beside_run, List.map_nil, List.append_nil]

theorem pure {a : β} (h : post (.ok a) []) :
    Hears seen t (Pure.pure a : Op (W × List (Heard V K)) V β) (Pure.pure a : Op W V β) post :=
  silent rfl (fun _ => rfl) fun _ => h

theorem read {f : Table V → β} (h : post (.ok (f t)) []) :
    Hears seen t (Op.read f : Op (W × List (Heard V K)) V β) (Op.read f : Op W V β) post :=
  silent rfl (fun _ => rfl) fun _ => h

/-- What is asked first goes first on the record. After a panic nothing is asked any more. -/
theorem bind {op' : Op (W × List (Heard V K)) V α} {op : Op W V α}
    {g' : α → Op (W × List (Heard V K)) V β} {g : α → Op W V β}
    {mid : Except Panic α → List (Consultation V K) → Prop} (hop : Hears seen t op' op mid)
    (hg : ∀ a asked, mid (.ok a) asked →
      Hears seen t (g' a) (g a) fun r more => post r (asked ++ more))
    (hpanic : ∀ p asked, mid (.error p) asked → post (.error p) asked) :
    Hears seen t (op' >>= g') (op >>= g) post := by
  intro w past
  obtain ⟨asked, hrun', hleaves, hpasses, hmid⟩ := hop w past
  cases hrun : op ⟨t, w⟩ with
  | ok a s =>
      rw [hrun] at hrun' hleaves hpasses hmid
      obtain ⟨table, w'⟩ := s
      obtain rfl : table = t := hleaves
      obtain ⟨more, hmore', hleaves', hpasses', hpost⟩ :=
        hg a asked hmid w' (past ++ asked.map (Heard.mk seen))
      rw [Op.run_bind_ok hrun', Op.run_bind_ok hrun]
      refine ⟨asked ++ more, ?_, hleaves', ?_, hpost⟩
      · rw [List.map_append, ← List.append_assoc]
        exact hmore'
      · intro c hc p hp
        rcases List.mem_append.1 hc with hc | hc
        · cases hpasses c hc p hp
        · exact hpasses' c hc p hp
  | error p s =>
      rw [hrun] at hrun' hleaves hpasses hmid
      rw [Op.run_bind_error hrun', Op.run_bind_error hrun]
      refine ⟨asked, rfl, hleaves, ?_, hpanic p asked hmid⟩
      intro c hc q hq
      cases hpasses c hc q hq
      rfl

theorem bindRead {f : Table V → α} {g' : α → Op (W × List (Heard V K)) V β} {g : α → Op W V β}
    (hg : Hears seen t (g' (f t)) (g (f t)) post) :
    Hears seen t (Op.read f >>= g') (Op.read f >>= g) post :=
  hg

/-- One call of a policy. -/
theorem call {act : Table V → EStateM Panic W β} {ask : Except Panic β → Consultation V K}
    (hask : ∀ r p, (ask r).panic? = some p → r = .error p) (h : ∀ r, post r [ask r]) :
    Hears t t (Op.call fun seen => overheard (fun r => ⟨seen, ask r⟩) (act seen)) (Op.call act)
      post := by
  intro w past
  refine ⟨[ask (Op.outcome (Op.call act ⟨t, w⟩))], ?_, Op.leaves_call act _, ?_, h _⟩
  · simp only [Op.call, overheard]
    cases act t w with
    | ok a w' => rfl
    | error p w' => rfl
  · intro c hc p hp
    rw [List.mem_singleton.1 hc] at hp
    exact hask _ p hp

theorem bindQuery {q : Table V → Except Panic α} {a : α} (hq : q t = .ok a)
    {g' : α → Op (W × List (Heard V K)) V β} {g : α → Op W V β}
    (hg : Hears seen t (g' a) (g a) post) :
    Hears seen t (Op.query q >>= g') (Op.query q >>= g) post := by
  intro w past
  rw [Op.run_query_bind hq, Op.run_query_bind hq]
  exact hg w past

/-- With the fence up, what policies see is the table under it. -/
theorem fenced {op : Operation} {body' : Op (W × List (Heard V K)) V β} {body : Op W V β}
    (ht : t.fence = none)
    (h : Hears (t.fencedBy (some op)) (t.fencedBy (some op)) body' body post) :
    Hears (t.fencedBy (some op)) t (Op.fenced op body') (Op.fenced op body) post := by
  intro w past
  obtain ⟨asked, hrun', hleaves, hpasses, hpost⟩ := h w past
  have hdown : t.fencedBy none = t := Table.fencedBy_eq ht
  have hup : (t.fencedBy (some op)).fencedBy none = t := hdown
  cases hrun : body ⟨t.fencedBy (some op), w⟩ with
  | ok b s =>
      rw [hrun] at hrun' hleaves hpasses hpost
      obtain ⟨table, w'⟩ := s
      obtain rfl : table = t.fencedBy (some op) := hleaves
      have hfenced := Op.run_fenced_ok hrun
      have hfenced' := Op.run_fenced_ok hrun'
      rw [hdown] at hfenced hfenced'
      rw [hfenced, hfenced']
      exact ⟨asked, rfl, hup, hpasses, hpost⟩
  | error p s =>
      rw [hrun] at hrun' hleaves hpasses hpost
      obtain ⟨table, w'⟩ := s
      obtain rfl : table = t.fencedBy (some op) := hleaves
      have hfenced := Op.run_fenced_error hrun
      have hfenced' := Op.run_fenced_error hrun'
      rw [hdown] at hfenced hfenced'
      rw [hfenced, hfenced']
      exact ⟨asked, rfl, hup, hpasses, hpost⟩

/-- What comes after the calls asks nothing: if one of them panicked, it is not reached. -/
theorem bindSilent {op' : Op (W × List (Heard V K)) V α} {op : Op W V α}
    {g' : α → Op (W × List (Heard V K)) V β} {g : α → Op W V β}
    {mid : Except Panic α → List (Consultation V K) → Prop} (hop : Hears seen t op' op mid)
    (hg : ∀ a, g' a = (g a).beside) (w : W) (past : List (Heard V K)) :
    ∃ asked, (op' >>= g') ⟨t, (w, past)⟩
        = Op.attach (past ++ asked.map (Heard.mk seen)) ((op >>= g) ⟨t, w⟩)
      ∧ (∃ r, mid r asked)
      ∧ ∀ c ∈ asked, ∀ p, c.panic? = some p → ∃ w', (op >>= g) ⟨t, w⟩ = .error p ⟨t, w'⟩ := by
  obtain ⟨asked, hrun', hleaves, hpasses, hmid⟩ := hop w past
  refine ⟨asked, ?_, ⟨_, hmid⟩, ?_⟩
  · cases hrun : op ⟨t, w⟩ with
    | ok a s =>
        rw [hrun] at hrun'
        rw [Op.run_bind_ok hrun, Op.run_bind_ok hrun', hg]
        rfl
    | error p s =>
        rw [hrun] at hrun'
        rw [Op.run_bind_error hrun, Op.run_bind_error hrun']
        rfl
  · intro c hc p hp
    have hpanic := hpasses c hc p hp
    cases hrun : op ⟨t, w⟩ with
    | ok a s =>
        rw [hrun] at hpanic
        cases hpanic
    | error q s =>
        rw [hrun] at hpanic hleaves
        cases hpanic
        obtain ⟨table, w'⟩ := s
        obtain rfl : table = t := hleaves
        exact ⟨w', Op.run_bind_error hrun g⟩

variable {env : Environment V K W}

/-- A value that is held goes when a policy panics, and that is not on the record. -/
theorem holding (v : V) {body' : Op (W × List (Heard V K)) V β} {body : Op W V β}
    (h : Hears seen t body' body post) :
    Hears seen t (env.heard.holding v body') (env.holding v body) post := by
  intro w past
  obtain ⟨asked, hrun', hleaves, hpasses, hpost⟩ := h w past
  unfold Environment.holding
  cases hrun : body ⟨t, w⟩ with
  | ok b s =>
      rw [hrun] at hrun' hleaves hpasses hpost
      rw [Op.run_onPanic_ok hrun, Op.run_onPanic_ok hrun']
      exact ⟨asked, rfl, hleaves, hpasses, hpost⟩
  | error p s =>
      rw [hrun] at hrun' hleaves hpasses hpost
      rw [Op.run_onPanic_error hrun, Op.run_onPanic_error hrun']
      exact ⟨asked, rfl, hleaves, hpasses, hpost⟩

theorem extractOp (v : V) : Hears t t (env.heard.extractOp v) (env.extractOp v)
    fun r asked => asked = [Consultation.extract v r] :=
  call (fun r p hp => by cases r <;> cases hp; rfl) fun _ => rfl

theorem hashOp (k : K) : Hears t t (env.heard.hashOp k) (env.hashOp k)
    fun r asked => asked = [Consultation.hash k r] :=
  call (fun r p hp => by cases r <;> cases hp; rfl) fun _ => rfl

theorem keyEqOp (a b : K) : Hears t t (env.heard.keyEqOp a b) (env.keyEqOp a b)
    fun r asked => asked = [Consultation.keyEq a b r] :=
  call (fun r p hp => by cases r <;> cases hp; rfl) fun _ => rfl

end Hears

end SeparateChaining
