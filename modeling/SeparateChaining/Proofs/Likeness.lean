import SeparateChaining.Proofs.Instruction

/-!
# Tables that are alike

What an instruction does is settled by the policies and by what chains
hold. A renaming of arena keys that takes the chains of one table to
those of another therefore lasts: the instruction is seen to do the same
on both, and what it leaves corresponds again (`Instruction.agrees`).
Elements that were linked just now are the one place where the renaming
itself has to change.
-/

namespace SeparateChaining

variable {V K W : Type}

namespace Instruction

variable {p : Policies V K} {ρ : ArenaKey → ArenaKey} {t u t' u' : Table V}
  {ins : Instruction V K}

open Table

/-! ## One instruction on two tables -/

/-- The instruction is seen to do the same on both tables, and leaves them alike. -/
def Agrees (p : Policies V K) (t u : Table V) (ins : Instruction V K) : Prop :=
  Sight.of (ins.act p u).2 (ins.act p u).1 = Sight.of (ins.act p t).2 (ins.act p t).1
    ∧ (ins.act p t).2.Alike (ins.act p u).2

theorem agrees_of {a b : Except Panic (Answer V)} (hact : ins.act p t = (a, t'))
    (hact' : ins.act p u = (b, u')) (h : Renamed ρ t' u') (hsight : Sight.of u' b = Sight.of t' a) :
    ins.Agrees p t u := by
  rw [Agrees, hact, hact']
  exact ⟨hsight, h.alike⟩

/-- At the same position stand elements that correspond, or none. -/
theorem agrees_at (h : Renamed ρ t u) {i : Nat} {f g : Element V → Answer V × Table V}
    (hact : ins.act p t = atPosition t i f) (hact' : ins.act p u = atPosition u i g)
    (hfg : ∀ e ∈ t.chains.elements,
      Sight.ofAnswer (g (e.renamed ρ)).2 (g (e.renamed ρ)).1 = Sight.ofAnswer (f e).2 (f e).1
        ∧ Renamed ρ (f e).2 (g (e.renamed ρ)).2) : ins.Agrees p t u := by
  rw [atPosition] at hact hact'
  rw [h.elements, List.getElem?_map] at hact'
  cases he : t.chains.elements[i]? with
  | none =>
      rw [he] at hact hact'
      exact agrees_of hact hact' h rfl
  | some e =>
      rw [he] at hact hact'
      obtain ⟨hsight, hleft⟩ := hfg e (List.mem_of_getElem? he)
      exact agrees_of hact hact' hleft hsight

theorem agrees_contains (h : Renamed ρ t u) (q : K) :
    (contains q : Instruction V K).Agrees p t u := by
  refine agrees_of rfl rfl h ?_
  show Sight.flag _ = Sight.flag _
  rw [h.linkTo_block, Option.isSome_map]

theorem agrees_count (h : Renamed ρ t u) (q : K) :
    (count q : Instruction V K).Agrees p t u := by
  refine agrees_of rfl rfl h ?_
  show Sight.number _ = Sight.number _
  rw [h.block, List.length_map]

theorem agrees_iteratorOf (h : Renamed ρ t u) (q : K) :
    (iteratorOf q : Instruction V K).Agrees p t u := by
  refine agrees_of rfl rfl h ?_
  show Sight.values _ = Sight.values _
  rw [h.block, List.map_map]
  rfl

theorem agrees_bucketSize (h : Renamed ρ t u) (i : Nat) :
    (bucketSize i : Instruction V K).Agrees p t u := by
  rw [Agrees, act, act, h.bucketCount]
  split
  · rw [← Chains.length_row, ← Chains.length_row, h.row, List.length_map]
    exact ⟨rfl, h.alike⟩
  · exact ⟨rfl, h.alike⟩

section Instructions

variable (h : Renamed ρ t u) (ht : t.chains.WellFormed) (hu : u.chains.WellFormed)

include h ht hu

theorem agrees_find (q : K) : (find q : Instruction V K).Agrees p t u := by
  refine agrees_of rfl rfl h ?_
  show Sight.position _ = Sight.position _
  rw [h.linkTo_block, h.position ht hu (issues_block ht p q)]

theorem agrees_range (q : K) : (range q : Instruction V K).Agrees p t u := by
  refine agrees_of rfl rfl h ?_
  show Sight.positions _ _ = Sight.positions _ _
  rw [h.blockRun]
  cases hrun : t.blockRun p q with
  | none =>
      have hend := h.position ht hu issues_end
      exact congrArg₂ Sight.positions hend hend
  | some r =>
      obtain ⟨⟨m, hm, hfirst⟩, l, hl, hlast⟩ := mem_of_blockRun hrun
      have hlmem := mem_of_mem_block ht hl
      obtain ⟨n, hn, -⟩ := ht.mem_elements_iff_get?.1 hlmem
      have hstart := h.position ht hu (issues_of_mem ht (mem_of_mem_block ht hm))
      have hstop := h.position ht hu (issues_successor ht hn)
      rw [← h.successor ht hu hlmem, hlast] at hstop
      rw [hfirst] at hstart
      exact congrArg₂ Sight.positions hstart hstop

/-- The new nodes stand at the same position. -/
theorem position_linked {hash : UInt64} {pl : Chains.Place} (hfits : t.Fits hash pl) (v : V) :
    (u.linked (pl.renamed ρ) v hash).position?
        (u.cursor (some (u.linkedKey (pl.renamed ρ) v hash)))
      = (t.linked pl v hash).position? (t.cursor (some (t.linkedKey pl v hash))) := by
  have hposition := (h.linked ht hu hfits v).position (wellFormed_linked ht hfits v)
    (wellFormed_linked hu (h.fits hfits) v) (issues_linked pl v hash)
  rw [Option.map_some, Function.update_self] at hposition
  exact hposition

theorem agrees_placed (v : V) :
    Sight.ofAnswer (u.placed p v).2 (.placement (.ok (u.placed p v).1))
        = Sight.ofAnswer (t.placed p v).2 (.placement (.ok (t.placed p v).1))
      ∧ (t.placed p v).2.Alike (u.placed p v).2 := by
  have hissues := issues_block ht p (p.extract v)
  rw [Table.placed, Table.placed, h.linkTo_block]
  cases hlink : Chains.linkTo (t.block p (p.extract v)) with
  | some k =>
      rw [hlink] at hissues
      exact ⟨congrArg (Sight.resident · v) (h.position ht hu hissues), h.alike⟩
  | none =>
      have hfits := fits_homePlace t (p.hash (p.extract v))
      have hplace : u.homePlace (p.hash (p.extract v))
          = (t.homePlace (p.hash (p.extract v))).renamed ρ :=
        congrArg Chains.Place.head (h.home _)
      simp only [Option.map_none, hplace]
      exact ⟨congrArg Sight.linked (position_linked h ht hu hfits v),
        (h.linked ht hu hfits v).alike⟩

theorem agrees_added (v : V) :
    Sight.ofAnswer (u.added p v).2 (.position (.ok (u.added p v).1))
        = Sight.ofAnswer (t.added p v).2 (.position (.ok (t.added p v).1))
      ∧ (t.added p v).2.Alike (u.added p v).2 := by
  have hfits := fits_besidePlace t p v
  rw [Table.added, Table.added, h.besidePlace]
  exact ⟨congrArg Sight.position (position_linked h ht hu hfits v),
    (h.linked ht hu hfits v).alike⟩

theorem agrees_insertNew (v : V) : (insertNew v : Instruction V K).Agrees p t u := by
  have hwide := widened_roomFor ht (t.size + 1)
  have hwide' := widened_roomFor hu (t.size + 1)
  have hplaced := agrees_placed (p := p) (h.roomFor ht hu (t.size + 1)) (hwide.wellFormed ht)
    (hwide'.wellFormed hu) v
  rw [Agrees, act, act, h.size ht hu]
  exact hplaced

theorem agrees_insertAny (v : V) : (insertAny v : Instruction V K).Agrees p t u := by
  have hwide := widened_roomFor ht (t.size + 1)
  have hwide' := widened_roomFor hu (t.size + 1)
  have hadded := agrees_added (p := p) (h.roomFor ht hu (t.size + 1)) (hwide.wellFormed ht)
    (hwide'.wellFormed hu) v
  rw [Agrees, act, act, h.size ht hu]
  exact hadded

theorem agrees_next (i : Nat) : (next i : Instruction V K).Agrees p t u := by
  refine agrees_at h rfl rfl fun e he => ⟨?_, h⟩
  obtain ⟨n, hn, -⟩ := ht.mem_elements_iff_get?.1 he
  have hposition := h.position ht hu (issues_successor ht hn)
  rw [← h.successor ht hu he] at hposition
  exact congrArg Sight.position hposition

theorem agrees_erase (i : Nat) : (erase i : Instruction V K).Agrees p t u := by
  refine agrees_at h rfl rfl fun e he => ?_
  obtain ⟨n, hn, -⟩ := ht.mem_elements_iff_get?.1 he
  have hwithout := h.without ht hu he
  have hposition := hwithout.position (wellFormed_without ht _) (wellFormed_without hu _)
    (issues_without ht hn)
  rw [← h.successor ht hu he] at hposition
  exact ⟨congrArg Sight.position hposition, hwithout⟩

theorem agrees_eraseRun (q : K) : (eraseRun q : Instruction V K).Agrees p t u := by
  have hwithout := h.withoutAll ht hu fun e he => mem_of_mem_block (p := p) (q := q) ht he
  rw [← h.block] at hwithout
  refine agrees_of rfl rfl hwithout ?_
  show Sight.number _ = Sight.number _
  rw [h.block, List.length_map]

theorem agrees_clear : (clear : Instruction V K).Agrees p t u := by
  have hwithout := h.withoutAll ht hu fun e he => he
  rw [← h.elements] at hwithout
  exact agrees_of rfl rfl hwithout rfl

theorem agrees_reserve (n : Nat) : (reserve n : Instruction V K).Agrees p t u := by
  rw [Agrees, act, act, h.size ht hu]
  split
  · exact ⟨rfl, h.alike⟩
  · exact ⟨rfl, (h.roomFor ht hu _).alike⟩

theorem agrees_reserve! (n : Nat) : (reserve! n : Instruction V K).Agrees p t u := by
  rw [Agrees, act, act, h.size ht hu]
  split
  · exact ⟨rfl, h.alike⟩
  · exact ⟨rfl, (h.roomFor ht hu _).alike⟩

theorem agrees_first : (first : Instruction V K).Agrees p t u := by
  refine agrees_of rfl rfl h ?_
  have hposition := h.position ht hu (issues_first ht)
  rw [← h.first ht hu] at hposition
  exact congrArg Sight.position hposition

end Instructions

/-- Tables that are alike answer every instruction alike, and stay alike. -/
theorem agrees (halike : t.Alike u) (ht : t.Sound) (hu : u.Sound) (p : Policies V K)
    (ins : Instruction V K) : ins.Agrees p t u := by
  have htw := ht.wellFormed
  have huw := hu.wellFormed
  obtain ⟨ρ, h⟩ := halike.exists_renamed htw huw
  cases ins with
  | insertNew v => exact agrees_insertNew h htw huw v
  | insertNew! v => exact agrees_insertNew h htw huw v
  | insertAny v => exact agrees_insertAny h htw huw v
  | insertAny! v => exact agrees_insertAny h htw huw v
  | find q => exact agrees_find h htw huw q
  | contains q => exact agrees_contains h q
  | count q => exact agrees_count h q
  | range q => exact agrees_range h htw huw q
  | iteratorOf q => exact agrees_iteratorOf h q
  | homeBucket q => exact agrees_of rfl rfl h (congrArg Sight.number (h.home _))
  | erase i => exact agrees_erase h htw huw i
  | remove i => exact agrees_at h rfl rfl fun e he => ⟨rfl, h.without htw huw he⟩
  | eraseRun q => exact agrees_eraseRun h htw huw q
  | clear => exact agrees_clear h htw huw
  | rehash hint => exact agrees_of rfl rfl (h.roomFor htw huw hint) rfl
  | rehash! hint => exact agrees_of rfl rfl (h.roomFor htw huw hint) rfl
  | reserve n => exact agrees_reserve h htw huw n
  | reserve! n => exact agrees_reserve! h htw huw n
  | first => exact agrees_first h htw huw
  | past => exact agrees_of rfl rfl h (congrArg Sight.position (h.position htw huw issues_end))
  | next i => exact agrees_next h htw huw i
  | get i => exact agrees_at h rfl rfl fun e he => ⟨rfl, h⟩
  | modify i f => exact agrees_at h rfl rfl fun e he => ⟨rfl, h.edited htw huw he f⟩
  | iterate => exact agrees_of rfl rfl h (congrArg Sight.values h.values)
  | bucketSize i => exact agrees_bucketSize h i

end Instruction

end SeparateChaining
