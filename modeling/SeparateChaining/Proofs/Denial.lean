import SeparateChaining.Proofs.Command
import SeparateChaining.Proofs.Table.Failure

/-!
# What commands are denied

A command requests storage at most twice: buckets, when it begins, in
the world in which it is run, and a node, in the world that its lookup
has left. `Command.Denied` says that one of these requests, and not some
other, is refused, and for what cause. There is no other cause but that
of a reservation for more elements than can be counted.
-/

namespace SeparateChaining

variable {V K W α : Type}

/-- The refusal that an answer reports. -/
def Answer.refusal? : Answer V → Option AllocError
  | placement (.error e) | position (.error e) | room (.error e) => some e
  | _ => none

namespace Command

variable {env : Environment V K W} {cmd : Command V K} {t : Table V} {w : W} {e : AllocError}

open Table

/-- Run on `t` in the world `w`, the command is denied what it asks for because of `e`. -/
def Denied (env : Environment V K W) (w : W) (t : Table V) (e : AllocError) : Command V K → Prop
  | insertNew v | insertNew! v => InsertionRefused env w t .insertNew v e
  | insertAny v | insertAny! v => InsertionRefused env w t .insertAny v e
  | rehash hint | rehash! hint => RoomRefused env w t hint e
  | reserve n | reserve! n => if countLimit ≤ t.size + n then e = .capacityOverflow
      else RoomRefused env w t (t.size + n) e
  | _ => False

/-- The operations that report refusals, each with the run that came to one. -/
inductive Reports (env : Environment V K W) (s : Running V W) (e : AllocError)
    (s' : Running V W) : Command V K → Prop
  | insertNew {value : V} (run : Table.insertNew env value s = .ok (.error e) s') :
      Reports env s e s' (.insertNew value)
  | insertAny {value : V} (run : Table.insertAny env value s = .ok (.error e) s') :
      Reports env s e s' (.insertAny value)
  | rehash {hint : Nat} (run : Table.rehash env hint s = .ok (.error e) s') :
      Reports env s e s' (.rehash hint)
  | reserve {n : Nat} (run : Table.reserve env n s = .ok (.error e) s') :
      Reports env s e s' (.reserve n)

/-- An answer that reports a refusal is that of an operation which came to one. -/
theorem refused_of_return {op : Op W V (Except AllocError α)} {g : Except AllocError α → Answer V}
    {s s' : Running V W} {a : Answer V} (herror : ∀ e, (g (.error e)).refusal? = some e)
    (hok : ∀ x, (g (.ok x)).refusal? = none)
    (hrun : (do return g (← op) : Op W V (Answer V)) s = .ok a s') (he : a.refusal? = some e) :
    op s = .ok (.error e) s' := by
  obtain ⟨r, s₁, hop, hreturn⟩ := Op.of_run_bind_ok hrun
  cases hreturn
  rcases r with e' | x
  · rw [herror] at he
    cases he
    exact hop
  · rw [hok] at he
    cases he

theorem reports {s s' : Running V W} {a : Answer V} (hrun : cmd.run env s = .ok a s')
    (he : a.refusal? = some e) : cmd.Reports env s e s' := by
  cases cmd with
  | insertNew value =>
      exact .insertNew (refused_of_return (fun _ => rfl) (fun _ => rfl) hrun he)
  | insertAny value =>
      exact .insertAny (refused_of_return (fun _ => rfl) (fun _ => rfl) hrun he)
  | rehash hint => exact .rehash (refused_of_return (fun _ => rfl) (fun _ => rfl) hrun he)
  | reserve n => exact .reserve (refused_of_return (fun _ => rfl) (fun _ => rfl) hrun he)
  | _ =>
      obtain ⟨r, s₁, -, hret⟩ := Op.of_run_bind_ok hrun
      cases hret
      cases he

/-- Nothing is reported as refused that was not. -/
theorem Reports.denied {s : Running V W} (h : cmd.Reports env ⟨t, w⟩ e s) (ht : t.Sound) :
    cmd.Denied env w t e := by
  cases h with
  | insertNew run => exact refused_of_insertNew ht.wellFormed ht.fence run
  | insertAny run => exact refused_of_insertAny ht.wellFormed ht.fence run
  | rehash run => exact (refused_of_rehash ht.wellFormed ht.fence run).2
  | reserve run => exact (refused_of_reserve ht.wellFormed ht.fence run).2

end Command

end SeparateChaining
