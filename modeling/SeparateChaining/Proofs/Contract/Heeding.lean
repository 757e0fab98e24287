import SeparateChaining.Proofs.Keyed

/-!
# Environments that answer as policies do, if they answer

Between the environments of which nothing is known and those that follow
policies exactly stand those that heed them: whenever foreign code
answers, the answer is that of the policies. It may still panic
anywhere, and storage may be granted or refused as the supply likes.
What a contract over such an environment keeps is therefore kept on
every way out of an operation: when it answers, when it reports a
refusal, and when it panics.
-/

namespace SeparateChaining

variable {V K W : Type}

/-- Whenever foreign code is asked for a key, a hash or a comparison and answers, it answers as the
policies do. -/
structure Environment.Speaks (env : Environment V K W) (p : Policies V K) : Prop where
  extract : ∀ {seen v w k w'}, env.extract seen v w = .ok k w' → k = p.extract v
  hash : ∀ {seen k w hash w'}, env.hash seen k w = .ok hash w' → hash = p.hash k
  keyEq : ∀ {seen a b w same w'}, env.keyEq seen a b w = .ok same w' → same = p.keyEq a b

/-- Whenever foreign code answers, it answers as the policies do, and the copy of a value has an
equal key. -/
structure Environment.Heeds (env : Environment V K W) (p : Policies V K) : Prop where
  extract : ∀ {seen v w k w'}, env.extract seen v w = .ok k w' → k = p.extract v
  hash : ∀ {seen k w hash w'}, env.hash seen k w = .ok hash w' → hash = p.hash k
  keyEq : ∀ {seen a b w same w'}, env.keyEq seen a b w = .ok same w' → same = p.keyEq a b
  copied : ∀ {v u}, env.Copied v u → p.hasKey (p.extract v) u = true

theorem Environment.Heeds.speaks {env : Environment V K W} {p : Policies V K} (h : env.Heeds p) :
    env.Speaks p :=
  ⟨h.extract, h.hash, h.keyEq⟩

theorem Policies.speaks_environment (p : Policies V K) (sup : Supply W) :
    (p.environment sup).Speaks p where
  extract h := by
    cases h
    rfl
  hash h := by
    cases h
    rfl
  keyEq h := by
    cases h
    rfl

theorem Policies.heeds_environment {p : Policies V K} (hp : p.Coherent) (sup : Supply W) :
    (p.environment sup).Heeds p where
  extract := (p.speaks_environment sup).extract
  hash := (p.speaks_environment sup).hash
  keyEq := (p.speaks_environment sup).keyEq
  copied h := by
    obtain ⟨seen, w, w', hrun⟩ := h
    cases hrun
    exact hp.refl _

namespace Contract

variable {env : Environment V K W} {p : Policies V K} {P : Panic → Prop} {I : Table V → Prop}

/-- A property of the table is kept, the answers are those of the policies, and of the panics one
is known. -/
def heeding (P : Panic → Prop) (p : Policies V K) (I : Table V → Prop) : Contract V K W :=
  { (wild P I : Contract V K W) with
    key := fun v k => k = p.extract v
    hash := fun k hash => hash = p.hash k
    eq := fun a b same => same = p.keyEq a b }

theorem says_heeding : (heeding P p I : Contract V K W).Says p :=
  ⟨fun h => h, fun h => h, fun h => h⟩

theorem settles_heeding {α : Type} {d : Debt} {t : Table V} {ok : α → Prop}
    {r : EStateM.Result Panic W α} (hok : ∀ a w, r = .ok a w → ok a)
    (hr : ∀ q w, r = .error q w → P q) (h : I t) :
    (heeding P p I : Contract V K W).Settles d t ok r :=
  settles_wild (K := K) (d := d) hok hr h

theorem obeyed_speaking (henv : env.Speaks p) (hP : ∀ q, env.Raises q → P q)
    (I : Table V → Prop) : (heeding P p I).Obeyed env where
  extract _ _ _ _ h :=
    settles_heeding (fun _ _ hr => henv.extract hr) (fun _ _ hr => hP _ (Or.inl (.extract hr))) h
  hash _ _ _ _ h :=
    settles_heeding (fun _ _ hr => henv.hash hr) (fun _ _ hr => hP _ (Or.inl (.hash hr))) h
  keyEq _ _ _ _ _ h :=
    settles_heeding (fun _ _ hr => henv.keyEq hr) (fun _ _ hr => hP _ (Or.inl (.keyEq hr))) h
  dispose := (obeyed_wild_of env hP I).dispose
  unwinding := (obeyed_wild_of env hP I).unwinding
  report := (obeyed_wild_of env hP I).report
  reserve := (obeyed_wild_of env hP I).reserve
  unreserved := (obeyed_wild_of env hP I).unreserved
  allocate := (obeyed_wild_of env hP I).allocate
  deallocate := (obeyed_wild_of env hP I).deallocate

theorem obeyed_heeding (henv : env.Heeds p) (hP : ∀ q, env.Raises q → P q) (I : Table V → Prop) :
    (heeding P p I).Obeyed env :=
  obeyed_speaking henv.speaks hP I

end Contract

end SeparateChaining
