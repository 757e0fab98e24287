import SeparateChaining.Proofs.Contract

/-!
# Environments of which nothing is known

The contract of an environment that may do anything: grant or refuse
what it likes, answer the same question differently each time, panic
anywhere. What can still be kept is a property of the table alone. A
panic is then either one that the table raises on purpose, because it
was misused, or one that the environment itself raises. The panics that
stand for a breach of the table's own structure are of neither sort,
unless the environment raises one of them itself.
-/

namespace SeparateChaining

namespace Panic

/-- Panics that report a misuse of a table, or a refusal that cannot be reported otherwise. -/
def isMisuse : Panic → Bool
  | foreignCursor | staleCursor | erasedElement | endCursor => true
  | allocationFailed _ | bucketOutOfRange .. => true
  | _ => false

/-- Panics that stand for a breach of a table's own structure. -/
def isBreach : Panic → Bool
  | noBuckets | unlinkedNode | brokenChain | deletedPredecessor | releasedWhileLinked => true
  | _ => false

theorem not_isBreach_of_isMisuse {p : Panic} (h : p.isMisuse) : p.isBreach = false := by
  cases p with
  | foreignCursor => rfl
  | staleCursor => rfl
  | erasedElement => rfl
  | endCursor => rfl
  | allocationFailed cause => rfl
  | bucketOutOfRange buckets index => rfl
  | _ => cases h

end Panic

variable {V K W : Type}

/-- The panics that some call of foreign code raises. -/
inductive Caller.Raises (caller : Caller V K W) : Panic → Prop
  | extract {seen : Table V} {v : V} {w w' : W} {p : Panic}
      (run : caller.extract seen v w = .error p w') : Raises caller p
  | hash {seen : Table V} {k : K} {w w' : W} {p : Panic}
      (run : caller.hash seen k w = .error p w') : Raises caller p
  | keyEq {seen : Table V} {a b : K} {w w' : W} {p : Panic}
      (run : caller.keyEq seen a b w = .error p w') : Raises caller p
  | copy {seen : Table V} {v : V} {w w' : W} {p : Panic}
      (run : caller.copy seen v w = .error p w') : Raises caller p
  | dispose {seen : Table V} {v : V} {w w' : W} {p : Panic}
      (run : caller.dispose seen v w = .error p w') : Raises caller p

/-- The panics that some return of storage raises. -/
def Supply.Raises (supply : Supply W) (p : Panic) : Prop :=
  ∃ b n w w', supply.deallocate b n w = .error p w'

/-- Whatever is given back is taken. -/
def Supply.TakesBack (sup : Supply W) : Prop :=
  ∀ block n w, ∃ w', sup.deallocate block n w = .ok () w'

/-- The panics that some use of an environment raises. -/
def Environment.Raises (env : Environment V K W) (p : Panic) : Prop :=
  env.toCaller.Raises p ∨ env.toSupply.Raises p

/-- The panics that may come out of an operation: it was misused, or the environment panics. -/
def Environment.Panics (env : Environment V K W) (p : Panic) : Prop :=
  p.isMisuse = true ∨ env.Raises p

namespace Contract

variable {α : Type} {env : Environment V K W} {P : Panic → Prop} {I : Table V → Prop}

/-- A property of the table is kept, and of the panics one is known. -/
def wild (P : Panic → Prop) (I : Table V → Prop) : Contract V K W where
  inv _ t _ := I t
  panics := P
  refuses _ := True
  key _ _ := True
  hash _ _ := True
  eq _ _ _ := True

theorem settles_wild {d : Debt} {t : Table V} {ok : α → Prop} {r : EStateM.Result Panic W α}
    (hok : ∀ a w, r = .ok a w → ok a) (hr : ∀ p w, r = .error p w → P p) (h : I t) :
    (wild P I : Contract V K W).Settles d t ok r := by
  cases r with
  | ok a w => exact ⟨h, hok a w rfl⟩
  | error p w => exact ⟨h, hr p w rfl⟩

theorem obeyed_wild_of (env : Environment V K W) (hP : ∀ p, env.Raises p → P p)
    (I : Table V → Prop) : (wild P I).Obeyed env where
  extract _ _ _ _ h :=
    settles_wild (fun _ _ _ => trivial) (fun _ _ hr => hP _ (Or.inl (.extract hr))) h
  hash _ _ _ _ h := settles_wild (fun _ _ _ => trivial) (fun _ _ hr => hP _ (Or.inl (.hash hr))) h
  keyEq _ _ _ _ _ h :=
    settles_wild (fun _ _ _ => trivial) (fun _ _ hr => hP _ (Or.inl (.keyEq hr))) h
  dispose _ _ _ _ h :=
    settles_wild (fun _ _ _ => trivial) (fun _ _ hr => hP _ (Or.inl (.dispose hr))) h
  unwinding _ _ _ _ h := h
  report _ _ _ _ h := h
  reserve _ _ _ _ h := h
  unreserved _ _ _ _ := trivial
  allocate d t b n w h := by
    rcases hrun : env.allocate b n w with ⟨e | u, w'⟩
    · exact ⟨h, trivial⟩
    · exact h
  deallocate _ _ _ _ _ h :=
    settles_wild (fun _ _ _ => trivial) (fun _ _ hr => hP _ (Or.inr ⟨_, _, _, _, hr⟩)) h

theorem copies_wild (env : Environment V K W) (I : Table V → Prop) :
    (wild env.Panics I).Copies env :=
  fun _ _ _ _ h =>
    settles_wild (fun _ _ _ => trivial) (fun _ _ hr => Or.inr (Or.inl (.copy hr))) h

theorem obeyed_wild (env : Environment V K W) (I : Table V → Prop) :
    (wild env.Panics I).Obeyed env :=
  obeyed_wild_of env (fun _ hp => Or.inr hp) I

/-- Whatever an operation that keeps the table comes to, it leaves it. -/
theorem Keeps.leaves {op : Op W V α} {d : Debt} {t : Table V} {f : Option Operation}
    {post : α → Debt → Table V → Prop}
    (h : (wild (fun _ => True) (· = t) : Contract V K W).Keeps f d t op post)
    (hwf : t.chains.WellFormed) (w : W) : Op.Leaves (t.fencedBy f) (op ⟨t.fencedBy f, w⟩) := by
  have hends := h w rfl hwf
  cases hrun : op ⟨t.fencedBy f, w⟩ with
  | ok a s =>
      rw [hrun] at hends
      obtain ⟨d, t', htable, rfl, -⟩ := hends
      exact htable
  | error p s =>
      rw [hrun] at hends
      obtain ⟨t', htable, rfl, -⟩ := hends
      exact htable

theorem obeyed_anything (env : Environment V K W) (I : Table V → Prop) :
    (wild (fun _ => True) I).Obeyed env :=
  obeyed_wild_of env (fun _ _ => trivial) I

end Contract

end SeparateChaining
