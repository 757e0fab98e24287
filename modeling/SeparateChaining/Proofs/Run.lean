import SeparateChaining.Proofs.Command
import SeparateChaining.Proofs.Table.Lifetime
import SeparateChaining.Store

/-!
# Runs of a store

An action makes a table, copies one, releases one or carries out a
command on one; a run is a list of actions, each of which starts from
what the one before it left, panic or not. All ways in which an action
ends are in `Performs`. Every theorem about runs goes through the same
facts about one action: which table it touches (`table?_step`), what it
makes of that table (`Takes`), and that tables stay sound (`Sound.step`).
-/

namespace SeparateChaining

/-- What can be done with a store. -/
inductive Action (V K : Type)
  | create (capacity : Nat)
  | copy (i : Nat)
  | drop (i : Nat)
  | on (i : Nat) (cmd : Command V K)

/-- What an action answers. -/
inductive Reply (V : Type)
  | created (r : Except AllocError Nat)
  | copied (r : Option Nat)
  | dropped (r : Bool)
  | answered (a : Option (Answer V))

namespace Store

variable {V K W α : Type} {env : Environment V K W} {s : Store V W} {i : Nat} {t : Table V}

def perform (env : Environment V K W) : Action V K → EStateM Panic (Store V W) (Reply V)
  | .create capacity => return .created (← create env.toSupply capacity)
  | .copy i => return .copied (← copy env i)
  | .drop i => return .dropped (← drop env i)
  | .on i cmd => return .answered (← on i (cmd.run env))

/-- What is left when an action has ended, panic or not. -/
def left : EStateM.Result Panic (Store V W) α → Store V W
  | .ok _ s => s
  | .error _ s => s

def step (env : Environment V K W) (s : Store V W) (a : Action V K) : Store V W :=
  left (perform env a s)

/-- What a run leaves. -/
def after (env : Environment V K W) (s : Store V W) (acts : List (Action V K)) : Store V W :=
  acts.foldl (step env) s

@[simp] theorem after_nil : s.after env [] = s := rfl

@[simp] theorem after_cons (a : Action V K) (acts : List (Action V K)) :
    s.after env (a :: acts) = (s.step env a).after env acts := rfl

theorem after_append (acts acts' : List (Action V K)) :
    s.after env (acts ++ acts') = (s.after env acts).after env acts' :=
  List.foldl_append ..

/-- What holds at first and is kept by every action holds after every run. -/
theorem after_induction {P : Store V W → Prop} (h : P s)
    (hstep : ∀ s a, P s → P (s.step env a)) (acts : List (Action V K)) : P (s.after env acts) := by
  induction acts generalizing s with
  | nil => exact h
  | cons a acts ih => exact ih (hstep s a h)

/-! ## Places -/

/-- The store with another table, or none, in a place, and another world. -/
def put (s : Store V W) (i : Nat) (t : Option (Table V)) (w : W) : Store V W :=
  { s with tables := s.tables.setIfInBounds i t, world := w }

theorem lt_of_table? (h : s.table? i = some t) : i < s.tables.size := by
  by_contra hlt
  rw [table?, Array.getElem?_eq_none (Nat.le_of_not_lt hlt)] at h
  cases h

theorem table?_put_self (hi : i < s.tables.size) (t : Option (Table V)) (w : W) :
    (s.put i t w).table? i = t := by
  simp [table?, put, hi]

theorem table?_put_ne {j : Nat} (h : j ≠ i) (t : Option (Table V)) (w : W) :
    (s.put i t w).table? j = s.table? j := by
  simp [table?, put, Array.getElem?_setIfInBounds_ne (Ne.symm h)]

theorem put_self {t : Option (Table V)} (h : s.table? i = t) (w : W) :
    s.put i t w = { s with world := w } := by
  have hsame : s.tables.setIfInBounds i t = s.tables := by
    refine Array.ext (by simp) ?_
    intro j hj hj'
    rw [Array.getElem_setIfInBounds hj']
    split
    · obtain rfl := ‹i = j›
      rw [table?, Array.getElem?_eq_getElem hj'] at h
      exact h.symm
    · rfl
  rw [put, hsame]

theorem table?_place (s : Store V W) (t : Option (Table V)) (j : Nat) :
    (s.place t).table? j = if j = s.tables.size then t else s.table? j := by
  rw [table?, table?, place, Array.getElem?_push]
  by_cases hj : j = s.tables.size
  · simp [hj]
  · simp [hj]

theorem table?_size (s : Store V W) : s.table? s.tables.size = none := by
  simp [table?]

theorem table?_place_none (s : Store V W) (j : Nat) : (s.place none).table? j = s.table? j := by
  rw [table?_place]
  split
  · obtain rfl := ‹j = _›
    exact (table?_size s).symm
  · rfl

/-! ## One action -/

theorem on_eq (h : s.table? i = some t) (op : Op W V α) :
    on i op s = match op ⟨t, s.world⟩ with
      | .ok a r => .ok (some a) (s.put i (some r.table) r.world)
      | .error p r => .error p (s.put i (some r.table) r.world) := by
  obtain ⟨tables, fresh, w⟩ := s
  have h' : (tables[i]?).join = some t := h
  rw [on]
  simp only [h']
  cases op ⟨t, w⟩ with
  | ok a r => simp [put]
  | error p r => simp [put]

theorem on_eq_none (h : s.table? i = none) (op : Op W V α) : on i op s = .ok none s := by
  obtain ⟨tables, fresh, w⟩ := s
  have h' : (tables[i]?).join = none := h
  rw [on]
  simp only [h']

theorem create_eq (sup : Supply W) (capacity : Nat) :
    create sup capacity s = match Table.create sup V s.fresh capacity s.world with
      | .ok (.ok t) w => .ok (.ok s.tables.size) (place { s with world := w } (some t))
      | .ok (.error e) w => .ok (.error e) (place { s with world := w } none)
      | .error p w => .error p (place { s with world := w } none) := by
  rcases hrun : Table.create sup V s.fresh capacity s.world with ⟨e | t, w⟩ | ⟨p, w⟩
  · simp only [create, hrun]
  · simp only [create, hrun]
  · simp only [create, hrun]

theorem copy_eq (h : s.table? i = some t) :
    copy env i s = match Table.copy env s.fresh ⟨t, s.world⟩ with
      | .ok t' r => .ok (some s.tables.size) ((s.put i (some r.table) r.world).place (some t'))
      | .error p r => .error p ((s.put i (some r.table) r.world).place none) := by
  rw [copy]
  simp only [on_eq h]
  cases Table.copy env s.fresh ⟨t, s.world⟩ with
  | ok a r => rfl
  | error p r => rfl

theorem copy_eq_none (h : s.table? i = none) : copy env i s = .ok none s := by
  rw [copy]
  simp only [on_eq_none h]

theorem drop_eq (h : s.table? i = some t) :
    drop env i s = match Table.release env ⟨t, s.world⟩ with
      | .ok _ r => .ok true (s.put i none r.world)
      | .error p r => .error p (s.put i none r.world) := by
  rw [drop]
  simp only [on_eq h]
  cases Table.release env ⟨t, s.world⟩ with
  | ok a r => simp [put]
  | error p r => simp [put]

theorem drop_eq_none (h : s.table? i = none) : drop env i s = .ok false s := by
  have hput : s.put i none s.world = s := put_self h s.world
  rw [drop]
  simp only [on_eq_none h]
  exact congrArg (EStateM.Result.ok false) hput

theorem perform_on (h : s.table? i = some t) (cmd : Command V K) :
    perform env (.on i cmd) s = match cmd.run env ⟨t, s.world⟩ with
      | .ok a r => .ok (.answered (some a)) (s.put i (some r.table) r.world)
      | .error p r => .error p (s.put i (some r.table) r.world) := by
  show EStateM.bind (on i (cmd.run env)) _ s = _
  rw [EStateM.bind, on_eq h]
  cases cmd.run env ⟨t, s.world⟩ with
  | ok a r => rfl
  | error p r => rfl

theorem perform_on_none (h : s.table? i = none) (cmd : Command V K) :
    perform env (.on i cmd) s = .ok (.answered none) s := by
  show EStateM.bind (on i (cmd.run env)) _ s = _
  rw [EStateM.bind, on_eq_none h]
  rfl

theorem perform_create (capacity : Nat) :
    perform env (.create capacity) s
      = match Table.create env.toSupply V s.fresh capacity s.world with
      | .ok (.ok t) w => .ok (.created (.ok s.tables.size)) (place { s with world := w } (some t))
      | .ok (.error e) w => .ok (.created (.error e)) (place { s with world := w } none)
      | .error p w => .error p (place { s with world := w } none) := by
  show EStateM.bind (create env.toSupply capacity) _ s = _
  rw [EStateM.bind, create_eq]
  rcases Table.create env.toSupply V s.fresh capacity s.world with ⟨e | t, w⟩ | ⟨p, w⟩
  · rfl
  · rfl
  · rfl

theorem perform_copy (h : s.table? i = some t) :
    perform env (.copy i) s = match Table.copy env s.fresh ⟨t, s.world⟩ with
      | .ok t' r => .ok (.copied (some s.tables.size))
          ((s.put i (some r.table) r.world).place (some t'))
      | .error p r => .error p ((s.put i (some r.table) r.world).place none) := by
  show EStateM.bind (copy env i) _ s = _
  rw [EStateM.bind, copy_eq h]
  cases Table.copy env s.fresh ⟨t, s.world⟩ with
  | ok a r => rfl
  | error p r => rfl

theorem perform_copy_none (h : s.table? i = none) :
    perform env (.copy i) s = .ok (.copied none) s := by
  show EStateM.bind (copy env i) _ s = _
  rw [EStateM.bind, copy_eq_none h]
  rfl

theorem perform_drop (h : s.table? i = some t) :
    perform env (.drop i) s = match Table.release env ⟨t, s.world⟩ with
      | .ok _ r => .ok (.dropped true) (s.put i none r.world)
      | .error p r => .error p (s.put i none r.world) := by
  show EStateM.bind (drop env i) _ s = _
  rw [EStateM.bind, drop_eq h]
  cases Table.release env ⟨t, s.world⟩ with
  | ok a r => rfl
  | error p r => rfl

theorem perform_drop_none (h : s.table? i = none) :
    perform env (.drop i) s = .ok (.dropped false) s := by
  show EStateM.bind (drop env i) _ s = _
  rw [EStateM.bind, drop_eq_none h]
  rfl

/-! ## Sound stores -/

/-- Every table is sound, and its identity is its place. -/
structure Sound (s : Store V W) : Prop where
  fresh : s.fresh = s.tables.size
  table : ∀ i t, s.table? i = some t → t.Sound ∧ t.id = i

theorem sound_ofWorld (w : W) : (ofWorld w : Store V W).Sound where
  fresh := rfl
  table i t h := by simp [table?, ofWorld] at h

/-- How the table in a place came to be there. -/
inductive Origin (env : Environment V K W) (s : Store V W) (a : Action V K) (j : Nat)
    (t' : Table V) : Prop
  | stays (elsewhere : ∀ cmd, a ≠ .on j cmd) (before : s.table? j = some t')
  | taken {t : Table V} {cmd : Command V K} (action : a = .on j cmd) (before : s.table? j = some t)
      (takes : cmd.Takes env t t')
  | created {capacity : Nat} (action : a = .create capacity) (here : j = s.tables.size)
      (made : t' = .ofBuckets s.fresh (.replicate (Ladder.fit capacity)))
  | copied {i : Nat} {t : Table V} {vs : List V} (action : a = .copy i)
      (before : s.table? i = some t) (here : j = s.tables.size)
      (made : t' = t.withValues s.fresh vs) (copies : List.Forall₂ env.Copied t.slotValues vs)

theorem copy_spec (ht : t.Sound) (env : Environment V K W) (id : Nat) (w : W) :
    match Table.copy env id ⟨t, w⟩ with
    | .ok t' r => r.table = t
        ∧ ∃ vs, t' = t.withValues id vs ∧ List.Forall₂ env.Copied t.slotValues vs
    | .error p r => r.table = t ∧ env.Panics p := by
  have hkeeps := Table.keeps_copy (t := t) (Contract.obeyed_wild env (· = t))
    (Contract.copies_wild env (· = t)) (fun e _ => Or.inl rfl) id
  cases hrun : Table.copy env id ⟨t, w⟩ with
  | ok t' r =>
      obtain ⟨d, t'', htable, -, -, rfl, -, hvs⟩ :=
        hkeeps.of_run_ok ht.fence ht.wellFormed rfl hrun
      exact ⟨htable.trans (Table.fencedBy_eq ht.fence), hvs⟩
  | error p r =>
      obtain ⟨t'', htable, rfl, -, hpanic⟩ :=
        hkeeps.of_run_error ht.fence ht.wellFormed rfl hrun
      exact ⟨htable.trans (Table.fencedBy_eq ht.fence), hpanic⟩

theorem create_spec (env : Environment V K W) (id capacity : Nat) (w : W) :
    match Table.create env.toSupply V id capacity w with
    | .ok (.ok t) _ => t = .ofBuckets id (.replicate (Ladder.fit capacity))
    | .ok (.error _) _ => True
    | .error p _ => env.Panics p := by
  have huses := Table.uses_create (d := 0) (t := default)
    (Contract.obeyed_wild env fun _ => True) id capacity w trivial
  rcases hrun : Table.create env.toSupply V id capacity w with ⟨e | t, w'⟩ | ⟨p, w'⟩
  · trivial
  · rw [hrun] at huses
    obtain ⟨d, -, -, ht⟩ := huses
    exact ht
  · rw [hrun] at huses
    exact huses.2

/-- How an action ends: as the operation ends that it comes down to, with what that leaves of a
table put back in its place. A copy leaves its original as it is. -/
inductive Performs (env : Environment V K W) (s : Store V W) :
    Action V K → EStateM.Result Panic (Store V W) (Reply V) → Prop
  | created {capacity : Nat} {t : Table V} {w : W}
      (run : Table.create env.toSupply V s.fresh capacity s.world = .ok (.ok t) w) :
      Performs env s (.create capacity)
        (.ok (.created (.ok s.tables.size)) (place { s with world := w } (some t)))
  | createRefused {capacity : Nat} {e : AllocError} {w : W}
      (run : Table.create env.toSupply V s.fresh capacity s.world = .ok (.error e) w) :
      Performs env s (.create capacity)
        (.ok (.created (.error e)) (place { s with world := w } none))
  | createPanicked {capacity : Nat} {p : Panic} {w : W}
      (run : Table.create env.toSupply V s.fresh capacity s.world = .error p w) :
      Performs env s (.create capacity) (.error p (place { s with world := w } none))
  | copied {i : Nat} {t t' : Table V} {w : W} (before : s.table? i = some t)
      (run : Table.copy env s.fresh ⟨t, s.world⟩ = .ok t' ⟨t, w⟩) :
      Performs env s (.copy i)
        (.ok (.copied (some s.tables.size)) (place { s with world := w } (some t')))
  | copyPanicked {i : Nat} {t : Table V} {p : Panic} {w : W} (before : s.table? i = some t)
      (run : Table.copy env s.fresh ⟨t, s.world⟩ = .error p ⟨t, w⟩) :
      Performs env s (.copy i) (.error p (place { s with world := w } none))
  | copyAbsent {i : Nat} (absent : s.table? i = none) :
      Performs env s (.copy i) (.ok (.copied none) s)
  | dropped {i : Nat} {t : Table V} {u : Unit} {r : Running V W} (before : s.table? i = some t)
      (run : Table.release env ⟨t, s.world⟩ = .ok u r) :
      Performs env s (.drop i) (.ok (.dropped true) (s.put i none r.world))
  | dropPanicked {i : Nat} {t : Table V} {p : Panic} {r : Running V W}
      (before : s.table? i = some t) (run : Table.release env ⟨t, s.world⟩ = .error p r) :
      Performs env s (.drop i) (.error p (s.put i none r.world))
  | dropAbsent {i : Nat} (absent : s.table? i = none) :
      Performs env s (.drop i) (.ok (.dropped false) s)
  | answered {i : Nat} {cmd : Command V K} {t : Table V} {a : Answer V} {r : Running V W}
      (before : s.table? i = some t) (run : cmd.run env ⟨t, s.world⟩ = .ok a r) :
      Performs env s (.on i cmd) (.ok (.answered (some a)) (s.put i (some r.table) r.world))
  | commandPanicked {i : Nat} {cmd : Command V K} {t : Table V} {p : Panic} {r : Running V W}
      (before : s.table? i = some t) (run : cmd.run env ⟨t, s.world⟩ = .error p r) :
      Performs env s (.on i cmd) (.error p (s.put i (some r.table) r.world))
  | commandAbsent {i : Nat} {cmd : Command V K} (absent : s.table? i = none) :
      Performs env s (.on i cmd) (.ok (.answered none) s)

theorem performs (h : s.Sound) (env : Environment V K W) (a : Action V K) :
    Performs env s a (perform env a s) := by
  cases a with
  | create capacity =>
      rw [perform_create]
      rcases hrun : Table.create env.toSupply V s.fresh capacity s.world with ⟨e | t, w⟩ | ⟨p, w⟩
      · exact .createRefused hrun
      · exact .created hrun
      · exact .createPanicked hrun
  | copy i =>
      cases hi : s.table? i with
      | none =>
          rw [perform_copy_none hi]
          exact .copyAbsent hi
      | some t =>
          have hspec := copy_spec (h.table i t hi).1 env s.fresh s.world
          rw [perform_copy hi]
          rcases hrun : Table.copy env s.fresh ⟨t, s.world⟩ with ⟨t', u, w⟩ | ⟨p, u, w⟩
          · rw [hrun] at hspec
            obtain rfl : u = t := hspec.1
            simp only [put_self hi]
            exact .copied hi hrun
          · rw [hrun] at hspec
            obtain rfl : u = t := hspec.1
            simp only [put_self hi]
            exact .copyPanicked hi hrun
  | drop i =>
      cases hi : s.table? i with
      | none =>
          rw [perform_drop_none hi]
          exact .dropAbsent hi
      | some t =>
          rw [perform_drop hi]
          cases hrun : Table.release env ⟨t, s.world⟩ with
          | ok u r => exact .dropped hi hrun
          | error p r => exact .dropPanicked hi hrun
  | on i cmd =>
      cases hi : s.table? i with
      | none =>
          rw [perform_on_none hi]
          exact .commandAbsent hi
      | some t =>
          rw [perform_on hi]
          cases hrun : cmd.run env ⟨t, s.world⟩ with
          | ok a r => exact .answered hi hrun
          | error p r => exact .commandPanicked hi hrun

theorem performs_of_perform (h : s.Sound) {a : Action V K}
    {r : EStateM.Result Panic (Store V W) (Reply V)} (hr : perform env a s = r) :
    Performs env s a r := by
  rw [← hr]
  exact performs h env a

theorem Origin.of_place {a : Action V K} {w : W} {j : Nat} {t' : Table V}
    (ha : ∀ cmd, a ≠ .on j cmd) (h : (place { s with world := w } none).table? j = some t') :
    Origin env s a j t' :=
  .stays ha ((table?_place_none { s with world := w } j).symm.trans h)

theorem Origin.of_drop {w : W} {j : Nat} {t' : Table V} (hi : s.table? i = some t)
    (h : (s.put i none w).table? j = some t') : Origin env s (.drop i) j t' := by
  by_cases hij : j = i
  · subst hij
    rw [table?_put_self (lt_of_table? hi)] at h
    cases h
  · rw [table?_put_ne hij] at h
    exact .stays (fun _ ha => nomatch ha) h

theorem Origin.of_takes {cmd : Command V K} {r : Running V W} {j : Nat} {t' : Table V}
    (hi : s.table? i = some t) (htakes : cmd.Takes env t r.table)
    (h : (s.put i (some r.table) r.world).table? j = some t') :
    Origin env s (.on i cmd) j t' := by
  by_cases hij : j = i
  · subst hij
    rw [table?_put_self (lt_of_table? hi)] at h
    cases h
    exact .taken rfl hi htakes
  · rw [table?_put_ne hij] at h
    refine .stays (fun _ ha => ?_) h
    cases ha
    exact hij rfl

theorem table?_step (h : s.Sound) {a : Action V K} {j : Nat} {t' : Table V}
    (ht' : (s.step env a).table? j = some t') : Origin env s a j t' := by
  obtain ⟨r, hr⟩ : ∃ r, perform env a s = r := ⟨_, rfl⟩
  rw [step, hr] at ht'
  cases performs_of_perform h hr with
  | @created capacity t w run =>
      have hspec := create_spec env s.fresh capacity s.world
      rw [run] at hspec
      rw [left, table?_place] at ht'
      split at ht'
      · cases ht'
        exact .created rfl ‹_› hspec
      · exact .stays (fun _ ha => nomatch ha) ht'
  | @copied i t t'' w before run =>
      have hspec := copy_spec (h.table i t before).1 env s.fresh s.world
      rw [run] at hspec
      obtain ⟨-, vs, hvs, hcopies⟩ := hspec
      rw [left, table?_place] at ht'
      split at ht'
      · cases ht'
        exact .copied rfl before ‹_› hvs hcopies
      · exact .stays (fun _ ha => nomatch ha) ht'
  | createRefused run => exact .of_place (fun _ ha => nomatch ha) ht'
  | createPanicked run => exact .of_place (fun _ ha => nomatch ha) ht'
  | copyPanicked before run => exact .of_place (fun _ ha => nomatch ha) ht'
  | dropped before run => exact .of_drop before ht'
  | dropPanicked before run => exact .of_drop before ht'
  | answered before run => exact .of_takes before ⟨_, _, Or.inl ⟨_, run⟩⟩ ht'
  | commandPanicked before run => exact .of_takes before ⟨_, _, Or.inr ⟨_, run⟩⟩ ht'
  | copyAbsent absent => exact .stays (fun _ ha => nomatch ha) ht'
  | dropAbsent absent => exact .stays (fun _ ha => nomatch ha) ht'
  | commandAbsent absent =>
      refine .stays (fun _ ha => ?_) ht'
      cases ha
      cases absent.symm.trans ht'

/-- A table stays as it is while no command is carried out on it, unless it is released. -/
theorem table?_step_ne (h : s.Sound) (ht : s.table? i = some t) {a : Action V K}
    (helsewhere : ∀ cmd, a ≠ .on i cmd) (hdrop : a ≠ .drop i) :
    (s.step env a).table? i = some t := by
  have hplace : ∀ (t' : Option (Table V)) (w : W),
      (place { s with world := w } t').table? i = some t := by
    intro t' w
    rw [table?_place, if_neg (Nat.ne_of_lt (lt_of_table? ht))]
    exact ht
  obtain ⟨r, hr⟩ : ∃ r, perform env a s = r := ⟨_, rfl⟩
  rw [step, hr]
  cases performs_of_perform h hr with
  | created | createRefused | createPanicked | copied | copyPanicked => exact hplace ..
  | dropped before | dropPanicked before =>
      rw [left, table?_put_ne fun heq => hdrop (congrArg Action.drop heq.symm)]
      exact ht
  | answered before | commandPanicked before =>
      rw [left, table?_put_ne fun heq => helsewhere _ (congrArg (Action.on · _) heq.symm)]
      exact ht
  | copyAbsent | dropAbsent | commandAbsent => exact ht

/-- A command leaves in its place what it leaves of the table. -/
theorem table?_step_on (ht : s.table? i = some t) (cmd : Command V K) :
    (s.step env (.on i cmd)).table? i = some (Op.left (cmd.run env ⟨t, s.world⟩)) := by
  rw [step, perform_on ht]
  cases cmd.run env ⟨t, s.world⟩ with
  | ok a r => exact table?_put_self (lt_of_table? ht) ..
  | error p r => exact table?_put_self (lt_of_table? ht) ..

/-- What becomes of a table over an action: it stays, or it is what a command leaves of it. -/
theorem eq_or_left_of_step (hs : s.Sound) (ht : s.table? i = some t) {a : Action V K}
    {t' : Table V} (ht' : (s.step env a).table? i = some t') :
    ((∀ cmd, a ≠ .on i cmd) ∧ t' = t)
      ∨ ∃ cmd, a = .on i cmd ∧ t' = Op.left (cmd.run env ⟨t, s.world⟩) := by
  cases table?_step hs ht' with
  | stays elsewhere before => exact Or.inl ⟨elsewhere, Option.some.inj (before.symm.trans ht)⟩
  | @taken t₀ cmd action before takes =>
      subst action
      exact Or.inr ⟨cmd, rfl, Option.some.inj (ht'.symm.trans (table?_step_on ht cmd))⟩
  | created action here made => exact absurd here (Nat.ne_of_lt (lt_of_table? ht))
  | copied action before here made copies => exact absurd here (Nat.ne_of_lt (lt_of_table? ht))

/-- Every attempt to make a table takes a place and an identity, and nothing else does. -/
theorem size_step (h : s.Sound) (env : Environment V K W) (a : Action V K) :
    ∃ n, (s.step env a).tables.size = s.tables.size + n ∧ (s.step env a).fresh = s.fresh + n := by
  obtain ⟨r, hr⟩ : ∃ r, perform env a s = r := ⟨_, rfl⟩
  rw [step, hr]
  cases performs_of_perform h hr with
  | created | createRefused | createPanicked | copied | copyPanicked =>
      exact ⟨1, Array.size_push _, rfl⟩
  | dropped | dropPanicked | answered | commandPanicked =>
      exact ⟨0, Array.size_setIfInBounds, rfl⟩
  | copyAbsent | dropAbsent | commandAbsent => exact ⟨0, rfl, rfl⟩

theorem Sound.step (h : s.Sound) (env : Environment V K W) (a : Action V K) :
    (s.step env a).Sound where
  fresh := by
    obtain ⟨n, hsize, hfresh⟩ := size_step h env a
    rw [hsize, hfresh, h.fresh]
  table j t' ht' := by
    cases table?_step h ht' with
    | stays elsewhere before => exact h.table j t' before
    | @taken t cmd action before takes =>
        obtain ⟨hsound, hid⟩ := h.table j t before
        obtain ⟨hchanges, hsound'⟩ := takes.changes hsound
        exact ⟨hsound', hchanges.same.1.trans hid⟩
    | @created capacity action here made =>
        subst made
        refine ⟨⟨Table.wellFormed_ofBuckets (Ladder.bounds_fit capacity).1, rfl⟩, ?_⟩
        exact h.fresh.trans here.symm
    | @copied i t vs action before here made copies =>
        subst made
        refine ⟨⟨Table.wellFormed_withValues (h.table i t before).1.wellFormed _ _, rfl⟩, ?_⟩
        exact h.fresh.trans here.symm

theorem Sound.after (h : s.Sound) (env : Environment V K W) (acts : List (Action V K)) :
    (s.after env acts).Sound :=
  after_induction h (fun _ a hs => hs.step env a) acts

/-- An action panics only on a misuse, or with a panic of the environment. -/
theorem Sound.panics (h : s.Sound) {a : Action V K} {p : Panic} {s' : Store V W}
    (hrun : perform env a s = .error p s') : env.Panics p := by
  cases performs_of_perform h hrun with
  | @createPanicked capacity p w run =>
      have hspec := create_spec env s.fresh capacity s.world
      rw [run] at hspec
      exact hspec
  | @copyPanicked i t p w before run =>
      have hspec := copy_spec (h.table i t before).1 env s.fresh s.world
      rw [run] at hspec
      exact hspec.2
  | @dropPanicked i t p r before run =>
      have hdrained := Table.drained_release (t := t) (w := s.world)
        (Contract.obeyed_wild env fun _ => True) (fun _ _ _ _ => trivial)
        (h.table i t before).1.wellFormed trivial
      rw [run] at hdrained
      exact hdrained.2
  | @commandPanicked i cmd t p r before run =>
      have hspec := Command.run_spec (h.table i t before).1 env cmd s.world
      rw [run] at hspec
      exact hspec.2.2

end Store

end SeparateChaining
