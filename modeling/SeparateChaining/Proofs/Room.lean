import SeparateChaining.Proofs.Tally

/-!
# Room for every element

The bucket count of a table is a rung of the ladder, and there are no
more elements than buckets unless the ladder ends there (`Roomy`). That
is so whatever the policies answer: a value is linked only once room for
one more element was made, and nothing else adds elements or takes
buckets away.
-/

namespace SeparateChaining

variable {V K W : Type}

namespace Table

variable {t t' : Table V}

/-- The bucket count is a rung that the size does not exceed, unless it is the last. -/
structure Roomy (t : Table V) : Prop where
  rung : t.bucketCount ∈ Ladder.rungs
  room : t.HasRoom t.size

theorem HasRoom.mono {m n : Nat} (h : t.HasRoom n) (hle : m ≤ n) : t.HasRoom m :=
  h.imp_left (Nat.le_trans hle)

theorem Roomy.le_or_eq (h : t.Roomy) : t.size ≤ t.bucketCount ∨ t.bucketCount = Ladder.top :=
  h.room.imp_right fun htop => Nat.le_antisymm (Ladder.bounds_of_mem h.rung).2 htop

/-! ## Each change -/

/-- Fewer elements in as many buckets have room. -/
theorem Roomy.of_le (h : t.Roomy) (hcount : t'.bucketCount = t.bucketCount)
    (hsize : t'.size ≤ t.size) : t'.Roomy where
  rung := by
    rw [hcount]
    exact h.rung
  room := by
    rw [HasRoom, hcount]
    exact h.room.mono hsize

theorem roomy_ofBuckets (id capacity : Nat) :
    (ofBuckets id (.replicate (Ladder.fit capacity)) : Table V).Roomy where
  rung := by
    rw [show (ofBuckets id (.replicate (Ladder.fit capacity)) : Table V).bucketCount
      = Ladder.fit capacity from Buckets.size_replicate _]
    exact Ladder.fit_mem capacity
  room := Or.inl (Nat.zero_le _)

theorem Roomy.grown (h : t.Roomy) {n : Nat} (hrung : n ∈ Ladder.rungs)
    (hmore : t.bucketCount < n) (hgrown : t.Grown n t') : t'.Roomy := by
  have hcount : t'.bucketCount = n := hgrown.chains.bucketCount
  refine ⟨hcount ▸ hrung, ?_⟩
  rw [HasRoom, hcount, hgrown.size]
  rcases h.room with hle | htop
  · exact Or.inl (Nat.le_trans hle (Nat.le_of_lt hmore))
  · -- there is no rung above the top
    exact absurd (Ladder.bounds_of_mem hrung).2 (Nat.not_le.2 (Nat.lt_of_le_of_lt htop hmore))

theorem Roomy.linked (h : t.Roomy) (hroom : t.HasRoom (t.size + 1)) (p : Chains.Place) (v : V)
    (hash : UInt64) : (t.linked p v hash).Roomy := by
  have hcount : (t.linked p v hash).bucketCount = t.bucketCount := Chains.bucketCount_insertAt ..
  refine ⟨hcount ▸ h.rung, ?_⟩
  rw [HasRoom, hcount, size_linked]
  exact hroom

theorem Roomy.without (h : t.Roomy) (hwf : t.chains.WellFormed) {k : ArenaKey} {e : Element V}
    (he : t.chains.element? k = some e) : (t.without k).Roomy :=
  h.of_le (Chains.bucketCount_without k) (Nat.le_of_succ_le (Nat.le_of_eq (size_without hwf he)))

end Table

/-! ## Commands and runs -/

section Runs

variable {env : Environment V K W} {cmd : Command V K}

open Table

theorem Contract.suits_roomy (env : Environment V K W) (cmd : Command V K) :
    (wild (fun _ => True) Roomy).Suits env cmd where
  obeyed := obeyed_anything env _
  grows := .of_tables (fun _ _ _ => Iff.rfl) fun _ _ _ _ hrung hmore hgrown h =>
    h.grown hrung hmore hgrown
  links _ _ _ _ _ _ hroom _ h := h.linked hroom _ _ _
  unlinks _ _ _ _ _ hwf he h := h.without hwf he
  edits _ t k f _ _ _ _ h := h.of_le rfl (Nat.le_of_eq (size_edited t k f))
  misuse _ _ := trivial

theorem Table.Roomy.takes {t t' : Table V} (h : t.Roomy) (ht : t.Sound)
    (htakes : cmd.Takes env t t') : t'.Roomy := by
  obtain ⟨w, w', hrun⟩ := htakes
  have hkeeps := Command.keeps_run (t := t) cmd (Contract.suits_roomy env cmd)
  rcases hrun with ⟨a, hrun⟩ | ⟨p, hrun⟩
  · obtain ⟨d, m, rfl, hroomy, -⟩ := hkeeps.of_run_ok ht.fence ht.wellFormed h hrun
    exact ⟨hroomy.rung, hroomy.room⟩
  · obtain ⟨m, rfl, hroomy, -⟩ := hkeeps.of_run_error ht.fence ht.wellFormed h hrun
    exact ⟨hroomy.rung, hroomy.room⟩

namespace Store

variable {s : Store V W}

/-- Every table has room. -/
def Roomy (s : Store V W) : Prop := ∀ i t, s.table? i = some t → t.Roomy

theorem Roomy.step (h : s.Roomy) (hs : s.Sound) (env : Environment V K W) (a : Action V K) :
    (s.step env a).Roomy := by
  intro i t ht
  cases table?_step hs ht with
  | stays elsewhere before => exact h i t before
  | taken action before takes => exact (h i _ before).takes (hs.table i _ before).1 takes
  | created action here made =>
      subst made
      exact roomy_ofBuckets _ _
  | copied action before here made copies =>
      subst made
      exact (h _ _ before).of_le rfl (Nat.le_of_eq (size_withValues _ _ _))

theorem roomy_after (env : Environment V K W) (w : W) (acts : List (Action V K)) :
    ((ofWorld w : Store V W).after env acts).Roomy := by
  refine (after_induction (P := fun s : Store V W => s.Sound ∧ s.Roomy) ⟨sound_ofWorld w, ?_⟩
    (fun s a hs => ⟨hs.1.step env a, hs.2.step hs.1 env a⟩) acts).2
  intro i t ht
  simp [table?, ofWorld] at ht

end Store

end Runs

end SeparateChaining
