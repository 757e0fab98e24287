import SeparateChaining.Proofs.Chains.Linking
import SeparateChaining.Proofs.Table.Growth
import SeparateChaining.Proofs.Table.Lookup
import SeparateChaining.Table.Insertion

/-!
# What inserting leaves

An insertion first gives the table room for one more element and seeks
the key there, and then links a node at a place that fits: on the chain
where the key's hash belongs, and with equal keys kept, directly after
the first match. The unit of the new node is owed from its grant until
the node is linked. A refusal spares the table: it is as it was, or it
has got its room.
-/

namespace SeparateChaining

variable {V K W : Type}

namespace Table

/-- A place on the chain where a hash belongs. -/
def Fits (t : Table V) (hash : UInt64) (p : Chains.Place) : Prop :=
  ∃ xs ys, t.homeRow hash = xs ++ ys
    ∧ p = Chains.placeAfter (t.chains.buckets.home hash) xs

/-- The key of the node that is linked at a place. -/
def linkedKey (t : Table V) (p : Chains.Place) (v : V) (hash : UInt64) : ArenaKey :=
  (t.chains.insertAt p v hash).1

/-- The table with a new node at a place. -/
def linked (t : Table V) (p : Chains.Place) (v : V) (hash : UInt64) : Table V :=
  { t with chains := (t.chains.insertAt p v hash).2 }

/-- The table is as it was, or it has got room for one more element. -/
def Spared (t t' : Table V) : Prop := t' = t ∨ t' = t.roomFor (t.size + 1)

theorem Spared.widened {t t' : Table V} (h : t.Spared t') (hwf : t.chains.WellFormed) :
    t.Widened t' := by
  rcases h with rfl | rfl
  · exact Or.inl rfl
  · exact widened_roomFor hwf _

theorem fits_homePlace (t : Table V) (hash : UInt64) : t.Fits hash (t.homePlace hash) :=
  ⟨[], t.homeRow hash, rfl, rfl⟩

theorem fits_after {t : Table V} {hash : UInt64} {xs ys : List (Element V)} {e : Element V}
    (h : t.homeRow hash = xs ++ e :: ys) : t.Fits hash (.after e.key) :=
  ⟨xs ++ [e], ys, by rw [h, List.append_assoc]; rfl, by rw [Chains.placeAfter_concat]⟩

theorem wellFormed_linked {t : Table V} (hwf : t.chains.WellFormed) {hash : UInt64}
    {p : Chains.Place} (hfits : t.Fits hash p) (v : V) : (t.linked p v hash).chains.WellFormed := by
  obtain ⟨xs, ys, hrow, rfl⟩ := hfits
  exact (hwf.insertAt hrow v rfl).wellFormed

end Table

namespace Contract

/-- The place that was sought for `v`: the head of its home chain if nothing matches its key there,
and the one after the first match, where a value may be linked beside its equals. -/
inductive Sought (C : Contract V K W) (beside : Bool) (t : Table V) (v : V) (hash : UInt64) :
    Chains.Place → Prop
  | alone {k : K} (key : C.key v k) (hashed : C.hash k hash)
      (new : C.FirstMatch hash k (t.homeRow hash) none) :
      Sought C beside t v hash (t.homePlace hash)
  | beside {k : K} {x : ArenaKey} (allowed : beside = true) (key : C.key v k)
      (hashed : C.hash k hash) (found : C.FirstMatch hash k (t.homeRow hash) (some x)) :
      Sought C beside t v hash (.after x)

theorem Sought.fits {C : Contract V K W} {beside : Bool} {t : Table V} {v : V} {hash : UInt64}
    {p : Chains.Place} (h : C.Sought beside t v hash p) : t.Fits hash p := by
  cases h with
  | alone key hashed new => exact t.fits_homePlace hash
  | beside allowed key hashed found =>
      obtain ⟨xs, e, ys, hrow, rfl, -⟩ := found
      exact Table.fits_after hrow

/-- Linking a node, where its place was sought and there is room for it, takes its unit out of the
debt. -/
def Links (C : Contract V K W) (beside : Bool) : Prop :=
  ∀ t p v hash w, t.chains.WellFormed → t.HasRoom (t.size + 1) → C.Sought beside t v hash p →
    C.inv ((0 : Debt).add .node 1) t w → C.inv 0 (t.linked p v hash) w

/-- What inserting `value` if it is new leaves. -/
inductive Placed (C : Contract V K W) (t : Table V) (value : V) : Placement V → Table V → Prop
  | linked {t' : Table V} {k : K} {hash : UInt64} (room : t' = t.roomFor (t.size + 1))
      (key : C.key value k) (hashed : C.hash k hash)
      (new : C.FirstMatch hash k (t'.homeRow hash) none) :
      Placed C t value (.linked (t'.cursor (some (t'.linkedKey (t'.homePlace hash) value hash))))
        (t'.linked (t'.homePlace hash) value hash)
  | resident {t' : Table V} {k : K} {hash : UInt64} {x : ArenaKey}
      (room : t' = t.roomFor (t.size + 1)) (key : C.key value k) (hashed : C.hash k hash)
      (found : C.FirstMatch hash k (t'.homeRow hash) (some x)) :
      Placed C t value (.resident (t'.cursor (some x)) value) t'

/-- What inserting `value` in any case leaves. -/
inductive Added (C : Contract V K W) (t : Table V) (value : V) : Cursor → Table V → Prop
  | alone {t' : Table V} {k : K} {hash : UInt64} (room : t' = t.roomFor (t.size + 1))
      (key : C.key value k) (hashed : C.hash k hash)
      (new : C.FirstMatch hash k (t'.homeRow hash) none) :
      Added C t value (t'.cursor (some (t'.linkedKey (t'.homePlace hash) value hash)))
        (t'.linked (t'.homePlace hash) value hash)
  | beside {t' : Table V} {k : K} {hash : UInt64} {x : ArenaKey}
      (room : t' = t.roomFor (t.size + 1)) (key : C.key value k) (hashed : C.hash k hash)
      (found : C.FirstMatch hash k (t'.homeRow hash) (some x)) :
      Added C t value (t'.cursor (some (t'.linkedKey (.after x) value hash)))
        (t'.linked (.after x) value hash)

end Contract

namespace Table

variable {C : Contract V K W} {env : Environment V K W} {f : Option Operation} {t : Table V}

open Contract

/-! ## Granting and linking a node -/

theorem keeps_refuse {α : Type} (henv : C.Obeyed env) (value : V) {e : AllocError}
    (he : C.refuses e) {left : Table V → Prop} (hleft : left t)
    {good : α → Debt → Table V → Prop} :
    C.Keeps f 0 t (refuse env value e) (C.OrRefused left good) := by
  unfold refuse
  refine (Keeps.disposeOp henv value).bindStill ?_
  intro _ _
  exact Keeps.pure ⟨rfl, hleft, he⟩

theorem keeps_reserveNode (henv : C.Obeyed env) {d : Debt} :
    C.Keeps f d t (reserveNode env) fun r d' t' =>
      d' = d ∧ t' = t ∧ (r = false → ∀ cause, C.refuses (.outOfMemory cause)) := by
  unfold reserveNode
  refine Keeps.bindRead ?_
  split
  rename_i full room _
  cases full with
  | true => exact (Keeps.world (Uses.reserveBytes henv _)).mono fun r d' t' hr =>
      ⟨hr.2.1, hr.1, hr.2.2⟩
  | false => exact Keeps.pure ⟨rfl, rfl, fun h => absurd h Bool.noConfusion⟩

theorem keeps_grantNode (henv : C.Obeyed env) (value : V) :
    C.Keeps f 0 t (grantNode env value)
      (C.OrRefused (· = t) fun _ d t' => d = (0 : Debt).add .node 1 ∧ t' = t) := by
  unfold grantNode
  refine (Keeps.holding henv value (Keeps.world (Uses.request henv .node 1))).bind ?_
  intro r d t' hr
  obtain ⟨rfl, hr⟩ := hr
  cases r with
  | error e =>
      obtain ⟨rfl, he⟩ := hr
      refine keeps_refuse henv value he ?_
      rfl
  | ok u =>
      obtain rfl := hr
      refine (Keeps.holding henv value (keeps_reserveNode henv)).bind ?_
      intro r d t' hr
      obtain ⟨rfl, rfl, hrefused⟩ := hr
      cases r with
      | true => exact Keeps.pure ⟨rfl, rfl⟩
      | false =>
          refine (Keeps.holding henv value (Keeps.world (Uses.deallocate henv .node 1))).bind ?_
          intro _ d t'' hr
          obtain ⟨rfl, rfl⟩ := hr
          refine keeps_refuse henv value (hrefused rfl _) ?_
          rfl

theorem keeps_requirePlace {hash : UInt64} {p : Chains.Place} (hfits : t.Fits hash p) :
    C.Keeps f 0 t (requirePlace p) (still t fun _ => True) := by
  refine Keeps.of_wellFormed ?_
  intro hwf
  refine Keeps.query (a := ()) ?_ ⟨rfl, rfl, trivial⟩
  obtain ⟨xs, ys, hrow, rfl⟩ := hfits
  rcases List.eq_nil_or_concat xs with rfl | ⟨xs, e, rfl⟩
  · rfl
  · have he : e ∈ t.homeRow hash := by simp [hrow]
    obtain ⟨n, hn, -⟩ := hwf.get? he
    have hlive : (t.fencedBy f).chains.nodes.contains e.key = true :=
      Arena.contains_iff.2 ⟨n, hn⟩
    rw [List.concat_eq_append, Chains.placeAfter_concat]
    simp only [hlive, if_true]

theorem keeps_link (henv : C.Obeyed env) {beside : Bool} (hlinks : C.Links beside)
    {hash : UInt64} {p : Chains.Place} {value : V} (hroom : t.HasRoom (t.size + 1))
    (hsought : C.Sought beside t value hash p) :
    C.Keeps f 0 t (link env p value hash) (C.OrRefused (· = t) fun c d t' =>
      d = 0 ∧ c = t.cursor (some (t.linkedKey p value hash)) ∧ t' = t.linked p value hash) := by
  refine Keeps.of_wellFormed ?_
  intro hwf
  have hfits := hsought.fits
  unfold link
  refine (Keeps.holding henv value (keeps_requirePlace hfits)).bindStill ?_
  intro _ _
  refine (keeps_grantNode henv value).bind ?_
  intro r d t' hr
  cases r with
  | error e =>
      obtain ⟨rfl, rfl, he⟩ := hr
      exact Keeps.pure ⟨rfl, rfl, he⟩
  | ok u =>
      obtain ⟨rfl, rfl⟩ := hr
      have hchange :
          (t'.fencedBy f).linked p value hash = (t'.linked p value hash).fencedBy f := rfl
      refine Keeps.bindChange (congrArg (Prod.mk (t'.linkedKey p value hash)) hchange)
        (wellFormed_linked hwf hfits value)
        (fun w hinv => hlinks t' p value hash w hwf hroom hsought hinv) ?_
      exact Keeps.bindRead (Keeps.pure ⟨rfl, rfl, rfl⟩)

/-! ## Operations -/

/-- A table that was given room for one more element has it. -/
theorem hasRoom_of_roomFor {m : Table V} (hwf : t.chains.WellFormed)
    (hroom : m = t.roomFor (t.size + 1)) : m.HasRoom (m.size + 1) := by
  rw [hroom, (widened_roomFor hwf _).size]
  exact hasRoom_roomFor hwf _

/-- Making room and seeking the key of the offered value. -/
theorem keeps_prepare (henv : C.Obeyed env) (hgrows : C.GrowsTo t (Ladder.fit (t.size + 1)))
    (op : Operation) (value : V) :
    C.Keeps none 0 t (prepare env op value) (C.OrRefused (· = t) fun r d t' =>
      d = 0 ∧ t' = t.roomFor (t.size + 1) ∧ ∃ k, C.key value k ∧ C.hash k r.1
        ∧ C.FirstMatch r.1 k (t'.homeRow r.1) r.2) := by
  unfold prepare
  have hrehash : C.Keeps none 0 t (do rehash env ((← .read (·.size)) + 1))
      (C.OrRefused (· = t) fun _ d t' => d = 0 ∧ t' = t.roomFor (t.size + 1)) :=
    Keeps.bindRead (keeps_rehash henv hgrows)
  refine (Keeps.holding henv value hrehash).bind ?_
  intro r d t' hr
  cases r with
  | error e =>
      obtain ⟨rfl, rfl, he⟩ := hr
      refine keeps_refuse henv value he ?_
      rfl
  | ok u =>
      obtain ⟨rfl, hroom⟩ := hr
      have hseek : C.Keeps (some op) 0 t' (do search env (← env.extractOp value))
          (still t' fun r => ∃ k, C.key value k ∧ C.hash k r.1
            ∧ C.FirstMatch r.1 k (t'.homeRow r.1) r.2) := by
        refine (keeps_extractOp henv value).bindStill ?_
        intro k hk
        refine (keeps_search henv k).mono ?_
        intro r d t'' hr
        obtain ⟨rfl, rfl, hr⟩ := hr
        exact ⟨rfl, rfl, k, hk, hr⟩
      refine (Keeps.holding henv value hseek.fenced).bindStill ?_
      intro r hr
      exact Keeps.pure ⟨rfl, hroom, hr⟩

theorem keeps_insertNew (henv : C.Obeyed env) (hgrows : C.GrowsTo t (Ladder.fit (t.size + 1)))
    (hlinks : C.Links false) (value : V) :
    C.Keeps none 0 t (insertNew env value)
      (C.OrRefused t.Spared fun p d t' => d = 0 ∧ C.Placed t value p t') := by
  refine Keeps.of_wellFormed ?_
  intro hwf
  unfold insertNew
  refine (keeps_prepare henv hgrows .insertNew value).bind ?_
  intro r d t' hr
  rcases r with e | ⟨hash, found⟩
  · obtain ⟨rfl, rfl, he⟩ := hr
    exact Keeps.pure ⟨rfl, Or.inl rfl, he⟩
  · obtain ⟨rfl, hroom, k, hk, hhash, hfound⟩ := hr
    cases found with
    | some x =>
        exact Keeps.bindRead (Keeps.pure ⟨rfl, .resident hroom hk hhash hfound⟩)
    | none =>
        refine Keeps.fenced (Keeps.bindRead ?_)
        refine (keeps_link henv hlinks (hasRoom_of_roomFor hwf hroom)
          (.alone hk hhash hfound)).bind ?_
        intro r d t'' hr
        cases r with
        | error e =>
            obtain ⟨rfl, rfl, he⟩ := hr
            exact Keeps.pure ⟨rfl, Or.inr hroom, he⟩
        | ok c =>
            obtain ⟨rfl, rfl, rfl⟩ := hr
            exact Keeps.pure ⟨rfl, .linked hroom hk hhash hfound⟩

theorem keeps_insertAny (henv : C.Obeyed env) (hgrows : C.GrowsTo t (Ladder.fit (t.size + 1)))
    (hlinks : C.Links true) (value : V) :
    C.Keeps none 0 t (insertAny env value)
      (C.OrRefused t.Spared fun c d t' => d = 0 ∧ C.Added t value c t') := by
  refine Keeps.of_wellFormed ?_
  intro hwf
  unfold insertAny
  refine (keeps_prepare henv hgrows .insertAny value).bind ?_
  intro r d t' hr
  rcases r with e | ⟨hash, found⟩
  · obtain ⟨rfl, rfl, he⟩ := hr
    exact Keeps.pure ⟨rfl, Or.inl rfl, he⟩
  · obtain ⟨rfl, hroom, k, hk, hhash, hfound⟩ := hr
    refine Keeps.fenced (Keeps.bindRead ?_)
    cases found with
    | none =>
        refine (keeps_link henv hlinks (hasRoom_of_roomFor hwf hroom)
          (.alone hk hhash hfound)).mono ?_
        intro r d t'' hr
        cases r with
        | error e =>
            obtain ⟨rfl, rfl, he⟩ := hr
            exact ⟨rfl, Or.inr hroom, he⟩
        | ok c =>
            obtain ⟨rfl, rfl, rfl⟩ := hr
            exact ⟨rfl, .alone hroom hk hhash hfound⟩
    | some x =>
        refine (keeps_link henv hlinks (hasRoom_of_roomFor hwf hroom)
          (.beside rfl hk hhash hfound)).mono ?_
        intro r d t'' hr
        cases r with
        | error e =>
            obtain ⟨rfl, rfl, he⟩ := hr
            exact ⟨rfl, Or.inr hroom, he⟩
        | ok c =>
            obtain ⟨rfl, rfl, rfl⟩ := hr
            exact ⟨rfl, .beside hroom hk hhash hfound⟩

end Table

end SeparateChaining
