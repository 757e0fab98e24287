import SeparateChaining.Proofs.Bag
import SeparateChaining.Proofs.Denial
import SeparateChaining.Proofs.Tally

/-!
# What a refusal leaves

A growth or a reservation that is refused leaves the table as it was. An
insertion that is refused leaves it as it was, or as a growth that makes
room for one more element would have left it had that been all: there is
one such table, whatever the environment does, with the same elements.
In either case what is granted is what the tables hold, and the cause is
the one for which the supply refused what the command requested, but for
a reservation of more than can be counted (`Store.refused_after`).
-/

namespace SeparateChaining

variable {V K W α : Type}

namespace Command

variable {env : Environment V K W} {cmd : Command V K} {t : Table V} {w : W}

open Table

/-- A refused command run on `t` in the world `w` may leave `t'`. -/
def Refuses (env : Environment V K W) (w : W) (t t' : Table V) : Command V K → Prop
  | insertNew _ | insertAny _ => t' = t ∨ t' = t.roomFor (t.size + 1)
      ∧ ∃ w', Table.rehash env (t.size + 1) ⟨t, w⟩ = .ok (.ok ()) ⟨t', w'⟩
  | rehash _ | reserve _ => t' = t
  | _ => False

theorem Refuses.widened {t' : Table V} (h : cmd.Refuses env w t t') (hwf : t.chains.WellFormed) :
    t.Widened t' := by
  cases cmd with
  | insertNew value => exact Spared.widened (h.imp_right And.left) hwf
  | insertAny value => exact Spared.widened (h.imp_right And.left) hwf
  | rehash hint => exact Or.inl h
  | reserve n => exact Or.inl h
  | _ => exact h.elim

/-- If an insertion is refused, its growth was refused, or it succeeded and is all that is left. -/
theorem room_of_refused {op : Operation} {value : V} {s : Running V W} {e : AllocError}
    {g : Except AllocError (UInt64 × Option ArenaKey) → Op W V (Except AllocError α)}
    (ht : t.Sound)
    (hspares : ∀ m : Table V, m.chains.WellFormed → m.fence = none →
      Op.Leaves m (Table.rehash env (t.size + 1) ⟨t, w⟩) →
      Op.Spares m ((prepare env op value >>= g) ⟨t, w⟩))
    (hrun : (prepare env op value >>= g) ⟨t, w⟩ = .ok (.error e) s) :
    s.table = t ∨ s.table = t.roomFor (t.size + 1)
      ∧ ∃ w', Table.rehash env (t.size + 1) ⟨t, w⟩ = .ok (.ok ()) ⟨s.table, w'⟩ := by
  obtain ⟨m, -, hm, hleft⟩ := exists_spares ht.wellFormed ht.fence hspares
  rw [hrun] at hleft
  obtain rfl : s.table = m := hleft
  have hspec := rehash_spec ht.wellFormed ht.fence env (t.size + 1) w
  rcases hrehash : Table.rehash env (t.size + 1) ⟨t, w⟩ with ⟨e' | u, m, w'⟩ | ⟨p, s'⟩
  · rw [hrehash] at hspec hm
    exact Or.inl (hm.symm.trans hspec.1)
  · rw [hrehash] at hspec hm
    obtain rfl : m = s.table := hm
    exact Or.inr ⟨hspec, w', rfl⟩
  · obtain ⟨s'', hpanic⟩ := prepare_bind_of_panic hrehash g
    rw [hrun] at hpanic
    cases hpanic

/-- What a command leaves that reports a refusal. -/
theorem Reports.refuses {s : Running V W} {e : AllocError} (h : cmd.Reports env ⟨t, w⟩ e s)
    (ht : t.Sound) : cmd.Refuses env w t s.table := by
  cases h with
  | @insertNew value run =>
      exact room_of_refused ht (fun m hwf hfence hm => spares_insertNew hwf hfence hm value) run
  | @insertAny value run =>
      exact room_of_refused ht (fun m hwf hfence hm => spares_insertAny hwf hfence hm value) run
  | rehash run => exact (refused_of_rehash ht.wellFormed ht.fence run).1
  | reserve run => exact (refused_of_reserve ht.wellFormed ht.fence run).1

end Command

namespace Store

variable {env : Environment V K W} {s : Store V W} {i : Nat} {t : Table V}

/-- The command `cmd` was refused to the table `t` in place `i` because of `e`, and `s'` is left. -/
structure Refused (env : Environment V K W) (s : Store V W) (i : Nat) (t : Table V)
    (cmd : Command V K) (e : AllocError) (s' : Store V W) : Prop where
  /-- The table has the elements it had, and is as it was or has kept the room that was made. -/
  table : ∃ t', s'.table? i = some t' ∧ cmd.Refuses env s.world t t'
    ∧ (∀ k, t'.chains.element? k = t.chains.element? k) ∧ t'.bag = t.bag
  elsewhere : ∀ j, j ≠ i → s'.table? j = s.table? j
  /-- The supply refused a request that the command made, or there were too many elements. -/
  cause : cmd.Denied env s.world t e

/-- The refusal that an action came to. -/
def refusal? : EStateM.Result Panic (Store V W) (Reply V) → Option AllocError
  | .ok (.answered (some a)) _ => a.refusal?
  | .ok (.created (.error e)) _ => some e
  | _ => none

theorem refused (hs : s.Sound) (ht : s.table? i = some t) {cmd : Command V K} {e : AllocError}
    (he : refusal? (perform env (.on i cmd) s) = some e) :
    s.Refused env i t cmd e (s.step env (.on i cmd)) := by
  have hsound := (hs.table i t ht).1
  rw [step, perform_on ht] at *
  cases hrun : cmd.run env ⟨t, s.world⟩ with
  | error p r =>
      rw [hrun] at he
      cases he
  | ok a r =>
      rw [hrun] at he
      have hreports := Command.reports hrun he
      have hrefuses := hreports.refuses hsound
      have hwide := hrefuses.widened hsound.wellFormed
      refine ⟨⟨r.table, table?_put_self (lt_of_table? ht) .., hrefuses, hwide.element?, ?_⟩,
        fun j hj => table?_put_ne hj .., ?_⟩
      · exact hwide.bag hsound.wellFormed
      · exact hreports.denied hsound

/-- A construction is refused if the buckets that fit its capacity are. -/
theorem refuses_of_create {capacity : Nat} {e : AllocError}
    (he : refusal? (perform env (.create capacity) s) = some e) :
    env.RefusesBuckets (env.fitted capacity s.world) (Ladder.fit capacity) e := by
  rw [perform_create] at he
  rcases hrun : Table.create env.toSupply V s.fresh capacity s.world with ⟨e' | t, w⟩ | ⟨p, w⟩
  · rw [hrun] at he
    cases he
    exact Table.refuses_of_create hrun
  · rw [hrun] at he
    cases he
  · rw [hrun] at he
    cases he

/-- Whatever the policies answer and the supply grants and refuses, and after every run: a command
that reports a refusal leaves its table as `Refused` says and keeps every tally of what is granted;
a reservation reports an overflow when it asks for more elements than can be counted, and then
changes nothing; and a construction gives the cause for which its buckets were refused. -/
theorem refused_after (env : Environment V K W) (w : W) (acts : List (Action V K))
    (ht : ((ofWorld w : Store V W).after env acts).table? i = some t) :
    (∀ cmd e, refusal? (perform env (.on i cmd) ((ofWorld w).after env acts)) = some e →
      ((ofWorld w).after env acts).Refused env i t cmd e
          (((ofWorld w).after env acts).step env (.on i cmd))
        ∧ ∀ held, env.Tallies held → held w 0 →
          (((ofWorld w).after env acts).step env (.on i cmd)).Tallied held)
    ∧ (∀ n, countLimit ≤ t.size + n →
      perform env (.on i (.reserve n)) ((ofWorld w).after env acts)
        = .ok (.answered (some (.room (.error .capacityOverflow)))) ((ofWorld w).after env acts))
    ∧ ∀ capacity e,
      refusal? (perform env (.create capacity) ((ofWorld w : Store V W).after env acts)) = some e →
      env.RefusesBuckets (env.fitted capacity ((ofWorld w : Store V W).after env acts).world)
        (Ladder.fit capacity) e := by
  have hsound := (sound_ofWorld (V := V) w).after env acts
  refine ⟨fun cmd e he => ⟨refused hsound ht he, fun held henv hw => ?_⟩, fun n hlimit => ?_,
    fun capacity e he => refuses_of_create he⟩
  · exact (settled_on henv hsound (tallied_after henv hw acts).2 cmd).left
  · have hreserve : (Command.reserve n).run env ⟨t, ((ofWorld w).after env acts).world⟩
        = .ok (.room (.error .capacityOverflow)) ⟨t, ((ofWorld w).after env acts).world⟩ :=
      Op.run_bind_ok (Table.reserve_of_overflow hlimit _)
    rw [perform_on ht, hreserve]
    exact congrArg (EStateM.Result.ok _) (put_self ht _)

/-- A table that is full is refused one node more, and keeps the room made for it. -/
theorem refused_after_growth :
    ∃ (s : Store Nat (Nat × Debt)) (t : Table Nat),
      s = (ofWorld (53, 0)).after .fewNodes
        (.create 0 :: List.replicate 53 (.on 0 (.insertAny 3)))
      ∧ s.table? 0 = some t ∧ t.bucketCount = 53
      ∧ s.Refused .fewNodes 0 t (.insertAny 3) (.exhausted 1 0)
        (s.step .fewNodes (.on 0 (.insertAny 3)))
      ∧ (s.step .fewNodes (.on 0 (.insertAny 3))).Tallied (fun w d => w.2 = d)
      ∧ ((s.step .fewNodes (.on 0 (.insertAny 3))).table? 0).map Table.bucketCount = some 97 := by
  have hbuckets : (((ofWorld (53, 0)).after .fewNodes
      (.create 0 :: List.replicate 53 (.on 0 (.insertAny 3)))).table? 0).map Table.bucketCount
      = some 53 := by decide +kernel
  obtain ⟨t, ht, hcount⟩ := Option.map_eq_some_iff.1 hbuckets
  obtain ⟨hrefused, htallied⟩ := (refused_after .fewNodes (53, 0) _ ht).1 (.insertAny 3)
    (.exhausted 1 0) (by decide +kernel)
  exact ⟨_, t, rfl, ht, hcount, hrefused,
    htallied _ Environment.tallies_fewNodes rfl, by decide +kernel⟩

end Store

end SeparateChaining
