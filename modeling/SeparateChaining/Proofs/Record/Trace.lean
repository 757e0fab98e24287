import SeparateChaining.Proofs.Record.Lookup
import SeparateChaining.Proofs.Table.Failure

/-!
# The calls of every command

What is asked of policies in a run of a store. A command that looks up
does so in the name of one operation (`Command.consulting?`) and on one
table: on the table it is run on, or for an insertion on the table that
its growth leaves, if that does not fail (`Command.consultedOn?`). There
it makes the calls of its lookup (`Command.Asks`) and no others. All
other commands, and creating, copying and releasing tables, make no
calls, so a hash that is cached is not computed again for growing,
moving about, removing or copying.

Listening changes nothing (`Store.trace_after`): the action does what it
does when nobody listens, beside the record.
-/

namespace SeparateChaining

variable {V K W D α β : Type}

/-! ## Commands that ask -/

/-- The table on which an insertion seeks the key of its value, if it gets to that. -/
def Table.madeRoom? (env : Environment V K W) (t : Table V) (w : W) : Option (Table V) :=
  match Table.rehash env (t.size + 1) ⟨t, w⟩ with
  | .ok (.ok ()) s => some s.table
  | _ => none

namespace Table

variable {env : Environment V K W} {t m : Table V} {w : W}

/-- It is the table with room for one more element. -/
theorem Sound.madeRoom? (ht : t.Sound) (h : t.madeRoom? env w = some m) :
    m.Sound ∧ m = t.roomFor (t.size + 1) := by
  have hspec := rehash_spec ht.wellFormed ht.fence env (t.size + 1) w
  rw [Table.madeRoom?] at h
  rcases hrun : rehash env (t.size + 1) ⟨t, w⟩ with ⟨e | u, s⟩ | ⟨p, s⟩
  · rw [hrun] at h
    cases h
  · rw [hrun] at h hspec
    cases h
    have hwide := widened_roomFor ht.wellFormed (t.size + 1)
    refine ⟨?_, hspec⟩
    rw [show s.table = _ from hspec]
    exact ⟨hwide.wellFormed ht.wellFormed, hwide.fence.trans ht.fence⟩
  · rw [hrun] at h
    cases h

/-- Makes room for an offered value. -/
def makeRoom (env : Environment V K W) (value : V) : Op W V (Except AllocError Unit) :=
  env.holding value (do rehash env ((← .read (·.size)) + 1))

/-- Seeks the key of an offered value if there is room for it. -/
def seekOffered (env : Environment V K W) (op : Operation) (value : V) :
    Except AllocError Unit → Op W V (Except AllocError (UInt64 × Option ArenaKey))
  | .error e => refuse env value e
  | .ok () => do return .ok (← seekHeld env op value)

/-- Places an offered value whose key has been sought, if it is new. -/
def placeNew (env : Environment V K W) (value : V) :
    Except AllocError (UInt64 × Option ArenaKey) → Op W V (Except AllocError (Placement V))
  | .error e => return .error e
  | .ok (_, some k) => return .ok (.resident (← .read (·.cursor (some k))) value)
  | .ok (hash, none) => .fenced .insertNew do
      let place ← .read (·.homePlace hash)
      return (← link env place value hash).map .linked

/-- Places an offered value whose key has been sought, in any case. -/
def placeAny (env : Environment V K W) (value : V) :
    Except AllocError (UInt64 × Option ArenaKey) → Op W V (Except AllocError Cursor)
  | .error e => return .error e
  | .ok (hash, found) => .fenced .insertAny do
      let place ← .read fun t =>
        match found with
        | some k => .after k
        | none => t.homePlace hash
      link env place value hash

theorem insertNew_eq (value : V) :
    insertNew env value = prepare env .insertNew value >>= placeNew env value := by
  unfold insertNew
  congr 1

theorem insertAny_eq (value : V) :
    insertAny env value = prepare env .insertAny value >>= placeAny env value := by
  unfold insertAny
  congr 1

theorem prepare_eq (op : Operation) (value : V) :
    prepare env op value = makeRoom env value >>= seekOffered env op value := rfl

theorem seekOffered_ok (op : Operation) (value : V) (u : Unit)
    (g : Except AllocError (UInt64 × Option ArenaKey) → Op W V α) :
    seekOffered env op value (.ok u) >>= g = seekHeld env op value >>= fun r => g (.ok r) :=
  bind_assoc ..

theorem makeRoom_heard (value : V) : makeRoom env.heard value = (makeRoom env value).beside :=
  env.holding_heard value (Op.eq_beside_bind rfl fun _ => rehash_heard _)

theorem madeRoom?_eq (value : V) :
    t.madeRoom? env w = match makeRoom env value ⟨t, w⟩ with
      | .ok (.ok ()) s => some s.table
      | _ => none := by
  have hroom : (do rehash env ((← .read (·.size)) + 1) : Op W V _) ⟨t, w⟩
      = rehash env (t.size + 1) ⟨t, w⟩ := rfl
  rw [Table.madeRoom?, makeRoom, Environment.holding]
  rcases hrun : rehash env (t.size + 1) ⟨t, w⟩ with ⟨e | u, s⟩ | ⟨p, s⟩
  · rw [Op.run_onPanic_ok (hroom.trans hrun)]
  · rw [Op.run_onPanic_ok (hroom.trans hrun)]
  · rw [Op.run_onPanic_error (hroom.trans hrun)]

theorem placeNew_heard (value : V) (r : Except AllocError (UInt64 × Option ArenaKey)) :
    placeNew env.heard value r = (placeNew env value r).beside := by
  rcases r with e | ⟨hash, k | k⟩
  · rfl
  · exact Op.fenced_eq_beside .insertNew (Op.eq_beside_bind rfl fun place =>
      Op.eq_beside_bind (link_heard place value hash) fun _ => rfl)
  · rfl

theorem placeAny_heard (value : V) (r : Except AllocError (UInt64 × Option ArenaKey)) :
    placeAny env.heard value r = (placeAny env value r).beside := by
  rcases r with e | ⟨hash, found⟩
  · rfl
  · exact Op.fenced_eq_beside .insertAny (Op.eq_beside_bind rfl fun place =>
      link_heard place value hash)

end Table

namespace Command

/-- The operation in whose name a command calls policies. -/
def consulting? : Command V K → Option Operation
  | insertNew _ | insertNew! _ => some .insertNew
  | insertAny _ | insertAny! _ => some .insertAny
  | find _ | contains _ => some .find
  | count _ => some .count
  | range _ => some .range
  | iteratorOf _ => some .iteratorOf
  | homeBucket _ => some .homeBucket
  | check => some .check
  | eraseRun _ => some .eraseRun
  | _ => none

/-- The table on which a command calls policies, if it gets to that. -/
def consultedOn? (env : Environment V K W) (t : Table V) (w : W) : Command V K → Option (Table V)
  | insertNew _ | insertNew! _ | insertAny _ | insertAny! _ => t.madeRoom? env w
  | _ => some t

/-- What a command asks on a table. -/
def Asks (m : Table V) : Command V K → List (Consultation V K) → Prop
  | insertNew value | insertNew! value | insertAny value | insertAny! value => m.Offers value
  | find q | contains q => m.Seeks q
  | count q | range q | iteratorOf q | eraseRun q => m.SeeksRun q
  | homeBucket q => fun asked => ∃ r, asked = [.hash q r]
  | check => fun _ => True
  | _ => (· = [])

/-- The calls that a command makes. One that panics ends the command, and leaves the table that it
was made on. -/
structure Consults (env : Environment V K W) (t : Table V) (w : W) (cmd : Command V K)
    (calls : List (Heard V K)) : Prop where
  silent : cmd.consulting? = none ∨ cmd.consultedOn? env t w = none → calls = []
  asks : ∀ op m, cmd.consulting? = some op → cmd.consultedOn? env t w = some m →
    ∃ asked, calls = asked.map (Heard.mk (m.fencedBy (some op))) ∧ cmd.Asks m asked
      ∧ ∀ c ∈ asked, ∀ p, c.panic? = some p → ∃ w', cmd.run env ⟨t, w⟩ = .error p ⟨m, w'⟩

variable {env : Environment V K W} {cmd : Command V K} {t : Table V}

/-- The run of a command is on record, beside what it comes to. -/
def Recorded (env : Environment V K W) (t : Table V) (w : W) (past : List (Heard V K))
    (cmd : Command V K) : Prop :=
  ∃ calls, cmd.run env.heard ⟨t, (w, past)⟩ = Op.attach (past ++ calls) (cmd.run env ⟨t, w⟩)
    ∧ cmd.Consults env t w calls

open Op Table

/-- A command that has no operation in whose name to ask asks nothing. -/
theorem run_heard (h : cmd.consulting? = none) : cmd.run env.heard = (cmd.run env).beside := by
  cases cmd with
  | erase c => exact eq_beside_bind (erase_heard c) fun _ => rfl
  | remove c => exact eq_beside_bind (remove_heard c) fun _ => rfl
  | clear => exact eq_beside_bind clear_heard fun _ => rfl
  | rehash hint => exact eq_beside_bind (rehash_heard hint) fun _ => rfl
  | rehash! hint => exact eq_beside_bind (infallible_eq_beside (rehash_heard hint)) fun _ => rfl
  | reserve n => exact eq_beside_bind (reserve_heard n) fun _ => rfl
  | reserve! n => exact eq_beside_bind (infallible_eq_beside (reserve_heard n)) fun _ => rfl
  | first => rfl
  | past => rfl
  | next c => exact eq_beside_bind (query_eq_beside _) fun _ => rfl
  | get c => exact eq_beside_bind (query_eq_beside _) fun _ => rfl
  | modify c f => exact eq_beside_bind (update_eq_beside _) fun _ => rfl
  | iterate => rfl
  | bucketSize i => exact eq_beside_bind (query_eq_beside _) fun _ => rfl
  | _ => cases h

theorem recorded_of_silent (h : cmd.consulting? = none) (w : W) (past : List (Heard V K)) :
    Recorded env t w past cmd := by
  refine ⟨[], ?_, fun _ => rfl, fun op m hop => ?_⟩
  · rw [run_heard h, beside_run, List.append_nil]
  · cases h.symm.trans hop

theorem consults_of_asked {w : W} {m : Table V} {op : Operation}
    (hop : cmd.consulting? = some op) (hon : cmd.consultedOn? env t w = some m)
    {asked : List (Consultation V K)} (hasks : cmd.Asks m asked)
    (hpanics : ∀ c ∈ asked, ∀ p, c.panic? = some p →
      ∃ w', cmd.run env ⟨t, w⟩ = .error p ⟨m, w'⟩) :
    cmd.Consults env t w (asked.map (Heard.mk (m.fencedBy (some op)))) where
  silent := by
    rintro (hnone | hnone)
    · cases hop.symm.trans hnone
    · cases hon.symm.trans hnone
  asks op' m' hop' hon' := by
    cases hop.symm.trans hop'
    cases hon.symm.trans hon'
    exact ⟨asked, rfl, hasks, hpanics⟩

/-- A command that first looks up, on the table that it is run on, and asks nothing after that. -/
theorem recorded_of_hears (cmd : Command V K) {op : Operation}
    (hop : cmd.consulting? = some op) {w : W} (hon : cmd.consultedOn? env t w = some t)
    {look' : Op (W × List (Heard V K)) V α} {look : Op W V α}
    {shape : List (Consultation V K) → Prop}
    (hlook : Hears (t.fencedBy (some op)) t look' look fun _ => shape)
    (hshape : ∀ asked, shape asked → cmd.Asks t asked)
    {g' : α → Op (W × List (Heard V K)) V (Answer V)} {g : α → Op W V (Answer V)}
    (hrun' : cmd.run env.heard = look' >>= g') (hrun : cmd.run env = look >>= g)
    (hg : ∀ a, g' a = (g a).beside) (past : List (Heard V K)) : Recorded env t w past cmd := by
  obtain ⟨asked, hattach, ⟨r, hasked⟩, hpanics⟩ := hlook.bindSilent hg w past
  rw [← hrun] at hpanics
  refine ⟨_, ?_, consults_of_asked hop hon (hshape asked hasked) hpanics⟩
  rw [hrun', hrun]
  exact hattach

/-- An insertion, whatever it does when it has sought the key of its value. -/
theorem recorded_insertion (cmd : Command V K) (ht : t.Sound) {op : Operation}
    (hop : cmd.consulting? = some op) {value : V} {w : W}
    (hon : cmd.consultedOn? env t w = t.madeRoom? env w)
    (hasks : ∀ m, cmd.Asks m = m.Offers value)
    {g' : Except AllocError (UInt64 × Option ArenaKey) →
      Op (W × List (Heard V K)) V (Answer V)}
    {g : Except AllocError (UInt64 × Option ArenaKey) → Op W V (Answer V)}
    (hrun' : cmd.run env.heard = prepare env.heard op value >>= g')
    (hrun : cmd.run env = prepare env op value >>= g)
    (hg : ∀ r, g' r = (g r).beside) (past : List (Heard V K)) : Recorded env t w past cmd := by
  rw [prepare_eq, bind_assoc] at hrun' hrun
  rw [makeRoom_heard] at hrun'
  have hmade : _ = t.madeRoom? env w := (madeRoom?_eq value).symm
  have hnothing : t.madeRoom? env w = none → cmd.Consults env t w [] := fun hnone =>
    ⟨fun _ => rfl, fun op' m _ hm => by cases hnone.symm.trans (hon.symm.trans hm)⟩
  -- making room asks nothing, and what comes then depends on how that ends
  rcases hroom : makeRoom env value ⟨t, w⟩ with ⟨e | u, m, w₁⟩ | ⟨p, m, w₁⟩
  · rw [hroom] at hmade
    refine ⟨[], ?_, hnothing hmade.symm⟩
    rw [List.append_nil, hrun', hrun, run_bind_ok hroom, run_bind_ok (congrArg (attach past) hroom)]
    exact congrFun (eq_beside_bind (refuse_heard value e) hg) _
  · rw [hroom] at hmade
    have hm : t.madeRoom? env w = some m := hmade.symm
    obtain ⟨asked, hattach, ⟨-, hasked⟩, hpanics⟩ :=
      (hears_seekHeld env (ht.madeRoom? hm).1 op value).bindSilent (fun r => hg (.ok r)) w₁ past
    rw [← seekOffered_ok op value u, ← seekOffered_ok op value u] at hattach
    rw [← seekOffered_ok op value u] at hpanics
    rw [← hasks] at hasked
    have hrest : cmd.run env ⟨t, w⟩ = (seekOffered env op value (.ok u) >>= g) ⟨m, w₁⟩ := by
      rw [hrun, run_bind_ok hroom]
    refine ⟨_, ?_, consults_of_asked hop (hon.trans hm) hasked fun c hc p hp =>
      (hpanics c hc p hp).imp fun w' hw' => hrest.trans hw'⟩
    rw [hrest, hrun', run_bind_ok (congrArg (attach past) hroom)]
    exact hattach
  · rw [hroom] at hmade
    refine ⟨[], ?_, hnothing hmade.symm⟩
    rw [List.append_nil, hrun', hrun, run_bind_error hroom,
      run_bind_error (congrArg (attach past) hroom)]
    rfl

/-- Every command is on record. -/
theorem recorded (ht : t.Sound) (env : Environment V K W) (cmd : Command V K) (w : W)
    (past : List (Heard V K)) : Recorded env t w past cmd := by
  cases cmd with
  | find q =>
      exact recorded_of_hears (.find q) rfl rfl (hears_find ht q) (fun _ h => h) rfl rfl
        (fun _ => rfl) past
  | contains q =>
      exact recorded_of_hears (.contains q) rfl rfl (hears_find ht q) (fun _ h => h)
        (bind_assoc _ _ _) (bind_assoc _ _ _) (fun _ => rfl) past
  | count q =>
      exact recorded_of_hears (.count q) rfl rfl (hears_count ht q) (fun _ h => h) rfl rfl
        (fun _ => rfl) past
  | range q =>
      exact recorded_of_hears (.range q) rfl rfl (hears_range ht q) (fun _ h => h) rfl rfl
        (fun _ => rfl) past
  | iteratorOf q =>
      exact recorded_of_hears (.iteratorOf q) rfl rfl (hears_iteratorOf ht q) (fun _ h => h) rfl rfl
        (fun _ => rfl) past
  | homeBucket q =>
      exact recorded_of_hears (.homeBucket q) rfl rfl (hears_homeBucket ht q) (fun _ h => h) rfl rfl
        (fun _ => rfl) past
  | check =>
      exact recorded_of_hears .check rfl rfl (hears_check ht) (fun _ h => h) rfl rfl
        (fun _ => rfl) past
  | eraseRun q =>
      refine recorded_of_hears (.eraseRun q) rfl rfl (hears_fenced_runOf ht .eraseRun q)
        (fun _ h => h) (bind_assoc _ _ _) (bind_assoc _ _ _) (fun r => ?_) past
      cases r with
      | none => rfl
      | some r =>
          exact eq_beside_bind (eq_beside_bind (eraseAlong_heard _ _) fun _ => rfl) fun _ => rfl
  | insertNew value =>
      exact recorded_insertion (.insertNew value) ht rfl rfl (fun _ => rfl) (bind_assoc _ _ _)
        (bind_assoc _ _ _) (fun r => eq_beside_bind (placeNew_heard value r) fun _ => rfl) past
  | insertNew! value =>
      refine recorded_insertion (.insertNew! value) ht rfl rfl (fun _ => rfl)
        ((bind_assoc _ _ _).trans (bind_assoc _ _ _)) ((bind_assoc _ _ _).trans (bind_assoc _ _ _))
        (fun r => eq_beside_bind (placeNew_heard value r) fun r => ?_) past
      cases r with
      | ok p => rfl
      | error e => rfl
  | insertAny value =>
      exact recorded_insertion (.insertAny value) ht rfl rfl (fun _ => rfl) (bind_assoc _ _ _)
        (bind_assoc _ _ _) (fun r => eq_beside_bind (placeAny_heard value r) fun _ => rfl) past
  | insertAny! value =>
      refine recorded_insertion (.insertAny! value) ht rfl rfl (fun _ => rfl)
        ((bind_assoc _ _ _).trans (bind_assoc _ _ _)) ((bind_assoc _ _ _).trans (bind_assoc _ _ _))
        (fun r => eq_beside_bind (placeAny_heard value r) fun r => ?_) past
      cases r with
      | ok p => rfl
      | error e => rfl
  | _ => exact recorded_of_silent rfl w past

end Command

/-! ## Actions of a store -/

namespace Store

variable {env : Environment V K W} {s : Store V W}

/-- The store with a record beside its world. -/
def beside (s : Store V W) (d : D) : Store V (W × D) := { s with world := (s.world, d) }

/-- How an action ended, beside a record. -/
def attach (d : D) :
    EStateM.Result Panic (Store V W) α → EStateM.Result Panic (Store V (W × D)) α
  | .ok a s => .ok a (s.beside d)
  | .error p s => .error p (s.beside d)

/-- The calls that an action makes: those of its command, if it has one. -/
def Consults (env : Environment V K W) (s : Store V W) (calls : List (Heard V K)) :
    Action V K → Prop
  | .on i cmd => match s.table? i with
    | some t => cmd.Consults env t s.world calls
    | none => calls = []
  | .create _ | .copy _ | .drop _ => calls = []

theorem perform_heard_on (hs : s.Sound) (i : Nat) (cmd : Command V K) (past : List (Heard V K)) :
    ∃ calls, perform env.heard (.on i cmd) (s.beside past)
        = attach (past ++ calls) (perform env (.on i cmd) s)
      ∧ s.Consults env calls (.on i cmd) := by
  cases hi : s.table? i with
  | none =>
      have hi' : (s.beside past).table? i = none := hi
      refine ⟨[], ?_, by simp only [Consults, hi]⟩
      rw [perform_on_none hi, perform_on_none hi', List.append_nil]
      rfl
  | some t =>
      have hi' : (s.beside past).table? i = some t := hi
      obtain ⟨calls, hrun, hcalls⟩ := Command.recorded (hs.table i t hi).1 env cmd s.world past
      refine ⟨calls, ?_, by simpa only [Consults, hi]⟩
      have hrun' : cmd.run env.heard ⟨t, (s.beside past).world⟩ = _ := hrun
      rw [perform_on hi, perform_on hi', hrun']
      cases cmd.run env ⟨t, s.world⟩ with
      | ok a r => rfl
      | error p r => rfl

theorem perform_heard_create (capacity : Nat) (past : List (Heard V K)) :
    perform env.heard (.create capacity) (s.beside past)
      = attach past (perform env (.create capacity) s) := by
  have hrun : Table.create env.heard.toSupply V (s.beside past).fresh capacity
      (s.beside past).world = _ := congrFun (Table.create_heard s.fresh capacity) (s.world, past)
  rw [perform_create, perform_create, hrun, SeparateChaining.beside]
  rcases Table.create env.toSupply V s.fresh capacity s.world with ⟨e | t, w⟩ | ⟨p, w⟩
  · rfl
  · rfl
  · rfl

theorem perform_heard_copy (i : Nat) (past : List (Heard V K)) :
    perform env.heard (.copy i) (s.beside past) = attach past (perform env (.copy i) s) := by
  cases hi : s.table? i with
  | none =>
      have hi' : (s.beside past).table? i = none := hi
      rw [perform_copy_none hi, perform_copy_none hi']
      rfl
  | some t =>
      have hi' : (s.beside past).table? i = some t := hi
      have hrun : Table.copy env.heard (s.beside past).fresh ⟨t, (s.beside past).world⟩ = _ :=
        congrFun (Table.copy_heard s.fresh) ⟨t, (s.world, past)⟩
      rw [perform_copy hi, perform_copy hi', hrun, Op.beside_run]
      cases Table.copy env s.fresh ⟨t, s.world⟩ with
      | ok t' r => rfl
      | error p r => rfl

theorem perform_heard_drop (i : Nat) (past : List (Heard V K)) :
    perform env.heard (.drop i) (s.beside past) = attach past (perform env (.drop i) s) := by
  cases hi : s.table? i with
  | none =>
      have hi' : (s.beside past).table? i = none := hi
      rw [perform_drop_none hi, perform_drop_none hi']
      rfl
  | some t =>
      have hi' : (s.beside past).table? i = some t := hi
      have hrun : Table.release env.heard ⟨t, (s.beside past).world⟩ = _ :=
        congrFun Table.release_heard ⟨t, (s.world, past)⟩
      rw [perform_drop hi, perform_drop hi', hrun, Op.beside_run]
      cases Table.release env ⟨t, s.world⟩ with
      | ok u r => rfl
      | error p r => rfl

/-- An action of a sound store does what it does when nobody listens, beside a record to which it
adds the calls that it makes. -/
theorem perform_heard (hs : s.Sound) (env : Environment V K W) (a : Action V K)
    (past : List (Heard V K)) :
    ∃ calls, perform env.heard a (s.beside past) = attach (past ++ calls) (perform env a s)
      ∧ s.Consults env calls a := by
  cases a with
  | create capacity =>
      refine ⟨[], ?_, rfl⟩
      rw [List.append_nil, perform_heard_create]
  | copy i =>
      refine ⟨[], ?_, rfl⟩
      rw [List.append_nil, perform_heard_copy]
  | drop i =>
      refine ⟨[], ?_, rfl⟩
      rw [List.append_nil, perform_heard_drop]
  | on i cmd => exact perform_heard_on hs i cmd past

/-- After every run, whatever the policies answer and whenever they panic, and for every action: the
calls of policies that it makes are those that `Consults` says, in their order. Nothing else that
happens depends on there being a record. -/
theorem trace_after (env : Environment V K W) (w : W) (acts : List (Action V K)) (a : Action V K)
    (past : List (Heard V K)) :
    ∃ calls, perform env.heard a (((ofWorld w).after env acts).beside past)
        = attach (past ++ calls) (perform env a ((ofWorld w).after env acts))
      ∧ ((ofWorld w).after env acts).Consults env calls a :=
  perform_heard ((sound_ofWorld w).after env acts) env a past

example :
    let env := (Policies.mk id (fun n => if n < 10 then 7 else 60) (· == ·) : Policies Nat Nat)
      |>.environment .nodesLeft
    let s := (ofWorld 53).after env [.create 0, .on 0 (.insertNew 1), .on 0 (.insertNew 2),
      .on 0 (.insertNew 12), .on 0 (.insertNew 3)]
    (left (perform env.heard (.on 0 (.count 2)) (s.beside []))).world.2.map (·.asked)
      = [.hash 2 (.ok 7), .extract 3 (.ok 3), .keyEq 3 2 (.ok false), .extract 2 (.ok 2),
        .keyEq 2 2 (.ok true), .extract 2 (.ok 2), .keyEq 2 2 (.ok true), .extract 1 (.ok 1),
        .keyEq 1 2 (.ok false)] := by
  decide +kernel

end Store

end SeparateChaining
