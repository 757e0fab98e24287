import SeparateChaining.Proofs.Collection.Serving

/-!
# Collections as their users see them

Users make collections, copy them, give them up and send them requests.
A `Behaviour` says what they may expect of one kind of collection, in
terms of data that they have in mind: which datum a new collection is,
and what a request may answer and make of it. That extends to any number
of collections, each in its place, of which an event touches one
(`Behaviour.Step`), and to lists of events (`Behaviour.Runs`). Storage
may be refused, and an event is then denied what it asks for in the
store that those before it have left (`Collection.Denied`). The panic
that reports this leaves a datum that the behaviour allows for, and
later events go on from there.

If tables represent data such that every request does what the behaviour
says (`Represents`), then all that a run of a store answers is what a
run of the data answers (`Represents.run`). What this takes for making,
copying and releasing tables is the same for all kinds and shown here.
-/

namespace SeparateChaining

variable {V K W Q A M : Type}

namespace Collection

/-- What is done with a number of collections of one kind. -/
inductive Event (Q : Type)
  | create (capacity : Nat)
  | copy (i : Nat)
  | drop (i : Nat)
  | on (i : Nat) (q : Q)

/-- What an event answers. -/
inductive Response (A : Type)
  | created (i : Nat)
  | copied (i : Option Nat)
  | dropped (b : Bool)
  | answered (a : Option A)
  deriving DecidableEq

/-- What requests to collections answer. In collections of pairs, the second half of a pair is
answered or the whole of it. -/
inductive Answer (V T : Type)
  | done
  | flag (b : Bool)
  | number (n : Nat)
  | second (t : Option T)
  | seconds (ts : List T)
  | element (v : Option V)
  | elements (vs : List V)
  deriving DecidableEq

/-- Collections are tables of a store, and `serve` is what they do on request. -/
def perform (env : Environment V K W) (serve : Q → Op W V A) :
    Event Q → EStateM Panic (Store V W) (Response A)
  | .create capacity => do
    match ← Store.create env.toSupply capacity with
    | .ok i => return .created i
    | .error e => throw (.allocationFailed e)
  | .copy i => return .copied (← Store.copy env i)
  | .drop i => return .dropped (← Store.drop env i)
  | .on i q => return .answered (← Store.on i (serve q))

/-- In the store `s` the panic `q` reports that the event is denied what it asks for. -/
def Denied (env : Environment V K W) (serve : Q → Op W V A) (s : Store V W) (q : Panic) :
    Event Q → Prop
  | .create capacity => ∃ e, q = .allocationFailed e
      ∧ env.RefusesBuckets (env.fitted capacity s.world) (Ladder.fit capacity) e
  | .copy i => ∃ t e, s.table? i = some t ∧ q = .allocationFailed e
      ∧ Table.CopyRefused env s.world t e
  | .drop _ => False
  | .on i request => ∃ t s', s.table? i = some t
      ∧ serve request ⟨t, s.world⟩ = .error q s' ∧ Op.Denied env ⟨t, s.world⟩ q s'

/-- What events answer, one after the other, and what they leave. -/
def run (env : Environment V K W) (serve : Q → Op W V A) :
    List (Event Q) → Store V W → List (Except Panic (Response A)) × Store V W
  | [], s => ([], s)
  | e :: es, s =>
    match perform env serve e s with
    | .ok a s => (.ok a :: (run env serve es s).1, (run env serve es s).2)
    | .error q s => (.error q :: (run env serve es s).1, (run env serve es s).2)

/-- Begun in the world `w`, the events of `past` leave a store in which `e` is denied what it asks
for, as the panic `q` reports. -/
def DeniedAfter (env : Environment V K W) (serve : Q → Op W V A) (w : W) (past : List (Event Q))
    (e : Event Q) (q : Panic) : Prop :=
  Denied env serve (run env serve past (.ofWorld w)).2 q e

theorem run_concat (env : Environment V K W) (serve : Q → Op W V A) (past : List (Event Q))
    (e : Event Q) (s : Store V W) :
    (run env serve (past ++ [e]) s).2 = match perform env serve e (run env serve past s).2 with
      | .ok _ s' | .error _ s' => s' := by
  induction past generalizing s with
  | nil =>
      rw [List.nil_append, run, run]
      cases perform env serve e s with
      | ok a s' => rfl
      | error q s' => rfl
  | cons x past ih =>
      rw [List.cons_append, run, run]
      cases perform env serve x s with
      | ok a s' => exact ih s'
      | error q s' => exact ih s'

end Collection

open Collection

/-- What users expect of a kind of collection. -/
structure Behaviour (Q A M : Type) where
  /-- What a new collection is. -/
  new : M
  /-- What a request may answer, and what it makes of the datum. -/
  Answers : Q → M → A → M → Prop
  /-- What a request may leave that is refused storage. -/
  Stops : Q → M → M → Prop

/-- Data in numbered places, some of which are empty. -/
structure Shelf (M : Type) where
  size : Nat
  at? : Nat → Option M

namespace Shelf

def empty : Shelf M := ⟨0, fun _ => none⟩

/-- Gives the next place to a datum, or leaves it empty. -/
def push (h : Shelf M) (m : Option M) : Shelf M :=
  ⟨h.size + 1, fun j => if j = h.size then m else h.at? j⟩

def set (h : Shelf M) (i : Nat) (m : Option M) : Shelf M :=
  ⟨h.size, fun j => if j = i then m else h.at? j⟩

end Shelf

/-- Whether an event makes a collection. -/
def Collection.Event.Makes (h : Shelf M) : Event Q → Prop
  | .create _ => True
  | .copy i => (h.at? i).isSome
  | _ => False

namespace Behaviour

variable (B : Behaviour Q A M)

/-- What an event may answer on a number of data, and what it leaves. It touches the datum in one
place and no other. It panics only if it is `denied` storage. -/
inductive Step (denied : Panic → Prop) :
    Shelf M → Event Q → Except Panic (Response A) → Shelf M → Prop
  | created (h : Shelf M) (capacity : Nat) :
      Step denied h (.create capacity) (.ok (.created h.size)) (h.push (some B.new))
  | copied {h : Shelf M} {i : Nat} {m : M} (present : h.at? i = some m) :
      Step denied h (.copy i) (.ok (.copied (some h.size))) (h.push (some m))
  | dropped {h : Shelf M} {i : Nat} {m : M} (present : h.at? i = some m) :
      Step denied h (.drop i) (.ok (.dropped true)) (h.set i none)
  | answered {h : Shelf M} {i : Nat} {q : Q} {m m' : M} {a : A} (present : h.at? i = some m)
      (answers : B.Answers q m a m') :
      Step denied h (.on i q) (.ok (.answered (some a))) (h.set i (some m'))
  | notMade {h : Shelf M} {e : Event Q} {p : Panic} (refused : denied p) (panic : p.IsRefusal)
      (makes : e.Makes h) : Step denied h e (.error p) (h.push none)
  | stopped {h : Shelf M} {i : Nat} {q : Q} {m m' : M} {p : Panic} (refused : denied p)
      (panic : p.IsRefusal) (present : h.at? i = some m) (stops : B.Stops q m m') :
      Step denied h (.on i q) (.error p) (h.set i (some m'))
  | copyAbsent {h : Shelf M} {i : Nat} (absent : h.at? i = none) :
      Step denied h (.copy i) (.ok (.copied none)) h
  | dropAbsent {h : Shelf M} {i : Nat} (absent : h.at? i = none) :
      Step denied h (.drop i) (.ok (.dropped false)) h
  | onAbsent {h : Shelf M} {i : Nat} {q : Q} (absent : h.at? i = none) :
      Step denied h (.on i q) (.ok (.answered none)) h

/-- What a list of events may answer that come after those of `past`, and what it leaves. -/
inductive Runs (denied : List (Event Q) → Event Q → Panic → Prop) : List (Event Q) → Shelf M →
    List (Event Q) → List (Except Panic (Response A)) → Shelf M → Prop
  | nil (past : List (Event Q)) (h : Shelf M) : Runs denied past h [] [] h
  | cons {past : List (Event Q)} {h h' h'' : Shelf M} {e : Event Q} {es : List (Event Q)}
      {r : Except Panic (Response A)} {rs : List (Except Panic (Response A))}
      (first : B.Step (denied past e) h e r h')
      (rest : Runs denied (past ++ [e]) h' es rs h'') : Runs denied past h (e :: es) (r :: rs) h''

end Behaviour

/-! ## Making, copying and releasing tables -/

section Lifetime

variable {p : Policies V K} {sup : Supply W} {t : Table V}

theorem Policies.not_raises (p : Policies V K) (hsup : sup.TakesBack) (q : Panic) :
    ¬(p.environment sup).Raises q := by
  rintro (hcall | ⟨b, n, w, w', hrun⟩)
  · exact p.caller_not_raises sup q hcall
  · obtain ⟨w'', hback⟩ := hsup b n w
    cases hback.symm.trans hrun

namespace Table

/-- A copy with the same values holds the same. -/
theorem Kept.withValues (ht : t.Kept p) (hp : p.Coherent) (id : Nat) :
    (t.withValues id t.slotValues).Kept p ∧ (t.withValues id t.slotValues).bag = t.bag := by
  have hwf := ht.sound.wellFormed
  have hwf' := wellFormed_withValues hwf id t.slotValues
  have hget : ∀ k, (t.withValues id t.slotValues).chains.nodes.get? k = t.chains.nodes.get? k := by
    intro k
    cases hn : t.chains.nodes.get? k with
    | none =>
        obtain ⟨g, hg⟩ := get?_withValues t id t.slotValues k
        rw [hg, hn]
        rfl
    | some n =>
        have hsame : List.Forall₂ Eq t.slotValues t.slotValues := List.forall₂_refl _
        obtain ⟨u, rfl, hnew⟩ := get?_withValues_of_forall₂ hsame id hn
        exact hnew
  have hrevalued : t.Revalued p (fun _ v => v) (t.withValues id t.slotValues) := by
    refine revalued_of_get? hwf rfl (fun k => ?_) fun _ _ _ => hp.refl _
    rw [hget]
    simp
  refine ⟨⟨⟨hwf', rfl⟩, ht.keyed.revalued hp hwf hrevalued⟩, ?_⟩
  rw [bag_eq, bag_eq, hwf.content_congr hwf' fun k => ?_]
  rw [Chains.element?, hget]
  rfl

variable (hsup : sup.TakesBack) (ht : t.Kept p)

include hsup ht

/-- A copy holds what its original does. It is not made only if it is refused what it takes. -/
theorem run_copy (hp : p.Coherent) (id : Nat) (w : W) :
    match copy (p.environment sup) id ⟨t, w⟩ with
    | .ok t' s => s.table = t ∧ t'.Kept p ∧ t'.bag = t.bag
    | .error q s => s.table = t
        ∧ ∃ e, q = .allocationFailed e ∧ CopyRefused (p.environment sup) w t e := by
  have hkeeps := keeps_copy (t := t)
    (Contract.obeyed_anything (p.environment sup) (· = t))
    (fun _ _ _ _ h => Contract.settles_wild (fun _ _ _ => trivial) (fun _ _ _ => trivial) h)
    (fun _ _ => trivial) id
  cases hrun : copy (p.environment sup) id ⟨t, w⟩ with
  | ok t' s =>
      obtain ⟨d, t'', htable, -, -, rfl, -, vs, rfl, hvs⟩ :=
        hkeeps.of_run_ok ht.sound.fence ht.sound.wellFormed rfl hrun
      have hsame : vs = t''.slotValues := by
        refine (List.forall₂_eq_eq_eq ▸ hvs.imp fun v u hu => ?_ : t''.slotValues = vs).symm
        obtain ⟨seen, w₁, w₂, hcopy⟩ := hu
        cases hcopy
        rfl
      subst hsame
      exact ⟨htable.trans (fencedBy_eq ht.sound.fence), ht.withValues hp id⟩
  | error q s =>
      obtain ⟨t'', htable, rfl, -, -⟩ :=
        hkeeps.of_run_error ht.sound.fence ht.sound.wellFormed rfl hrun
      have hrefused := refused_of_copy ht.sound.wellFormed ht.sound.fence hrun
      exact ⟨htable.trans (fencedBy_eq ht.sound.fence), hrefused.resolve_left (p.not_raises hsup q)⟩

theorem exists_release (w : W) : ∃ u s, release (p.environment sup) ⟨t, w⟩ = .ok u s := by
  have hdrained := drained_release (t := t) (w := w)
    (Contract.obeyed_wild_of (P := fun _ => False) (p.environment sup)
      (fun q hq => p.not_raises hsup q hq) fun _ => True)
    (fun _ _ _ _ => trivial) ht.sound.wellFormed trivial
  cases hrun : release (p.environment sup) ⟨t, w⟩ with
  | ok u s => exact ⟨u, s, rfl⟩
  | error q s =>
      rw [hrun] at hdrained
      exact hdrained.2.elim

end Table

end Lifetime

/-! ## Refinement -/

/-- A kept table stands for a datum that its bag reads as. -/
structure Table.StandsFor (p : Policies V K) (reads : Multiset V → M → Prop) (t : Table V)
    (m : M) : Prop where
  kept : t.Kept p
  reads : reads t.bag m

/-- Something is done for each of a list, and `g` says what the datum is once it is done for some.
A refusal on the way leaves what was done before it. -/
theorem Table.StandsFor.serves_forM {γ : Type} {p : Policies V K} {sup : Supply W} {t : Table V}
    {reads : Multiset V → M → Prop} {m : M} (ht : t.StandsFor p reads m) {f : γ → Op W V Unit}
    {g : List γ → M} (hnil : g [] = m)
    (hf : ∀ xs x t', t'.StandsFor p reads (g xs) → Serves p sup t' (f x)
      (fun _ t'' => reads t''.bag (g (xs ++ [x]))) fun t'' => reads t''.bag (g xs))
    (xs : List γ) :
    Serves p sup t (xs.forM f) (fun _ t' => reads t'.bag (g xs))
      fun t' => ∃ n < xs.length, reads t'.bag (g (xs.take n)) := by
  have hreads : reads t.bag (g (xs.take 0)) := by
    rw [List.take_zero, hnil]
    exact ht.reads
  refine (Serves.forM (I := fun n t' => reads t'.bag (g (xs.take n))) ht.kept hreads ?_).mono
    (fun _ t' _ h => ?_) fun _ h => h
  · intro n x t' hx hkept h
    rw [List.take_add_one, hx]
    exact hf _ x t' ⟨hkept, h⟩
  · rwa [List.take_length] at h

/-- Requests do to bags what the behaviour says, through what the bags read as. -/
structure Represents (B : Behaviour Q A M) (p : Policies V K) (sup : Supply W)
    (serve : Q → Op W V A) (reads : Multiset V → M → Prop) : Prop where
  new : reads 0 B.new
  serves : ∀ q t m, t.StandsFor p reads m → Serves p sup t (serve q)
    (fun a t' => ∃ m', B.Answers q m a m' ∧ reads t'.bag m')
    fun t' => ∃ m', B.Stops q m m' ∧ reads t'.bag m'

/-- It is known what the datum becomes. -/
theorem Serves.determined {p : Policies V K} {sup : Supply W} {t : Table V} {op : Op W V A}
    {reads : Multiset V → M → Prop} {tells : A → Prop} {m : M} {cut : Table V → Prop}
    {stops : M → Prop} (h : Serves p sup t op (fun a t' => tells a ∧ reads t'.bag m) cut)
    (hcut : ∀ t', cut t' → ∃ n, stops n ∧ reads t'.bag n) :
    Serves p sup t op (fun a t' => ∃ n, (tells a ∧ n = m) ∧ reads t'.bag n)
      fun t' => ∃ n, stops n ∧ reads t'.bag n :=
  h.mono (fun _ _ _ h => ⟨m, ⟨h.1, rfl⟩, h.2⟩) hcut

/-- Each table stands for what is on the shelf in its place. -/
structure Store.StandsFor (p : Policies V K) (reads : Multiset V → M → Prop) (s : Store V W)
    (h : Shelf M) : Prop where
  size : s.tables.size = h.size
  table : ∀ i, Option.Rel (Table.StandsFor p reads) (s.table? i) (h.at? i)

namespace Store.StandsFor

variable {p : Policies V K} {reads : Multiset V → M → Prop} {s : Store V W} {h : Shelf M} {i : Nat}

theorem ofWorld (w : W) : (Store.ofWorld w).StandsFor p reads (.empty : Shelf M) where
  size := rfl
  table i := by
    have hnone : (Store.ofWorld w : Store V W).table? i = none := by simp [table?, Store.ofWorld]
    rw [hnone]
    exact .none

theorem place (hs : s.StandsFor p reads h) (w : W) {t : Option (Table V)} {m : Option M}
    (ht : Option.Rel (Table.StandsFor p reads) t m) :
    (Store.place { s with world := w } t).StandsFor p reads (h.push m) where
  size := by
    rw [Store.place, Array.size_push, hs.size]
    rfl
  table j := by
    rw [table?_place, Shelf.push, ← hs.size]
    show Option.Rel _ (if j = s.tables.size then t else s.table? j)
      (if j = s.tables.size then m else h.at? j)
    split
    · exact ht
    · exact hs.table j

theorem put (hs : s.StandsFor p reads h) (hi : i < s.tables.size) (w : W) {t : Option (Table V)}
    {m : Option M} (ht : Option.Rel (Table.StandsFor p reads) t m) :
    (s.put i t w).StandsFor p reads (h.set i m) where
  size := Array.size_setIfInBounds.trans hs.size
  table j := by
    by_cases hj : j = i
    · subst hj
      rw [table?_put_self hi, Shelf.set]
      simpa using ht
    · rw [table?_put_ne hj, Shelf.set]
      simpa [hj] using hs.table j

theorem at?_of_none (hs : s.StandsFor p reads h) (hi : s.table? i = none) : h.at? i = none := by
  have hrel := hs.table i
  rw [hi] at hrel
  cases hm : h.at? i with
  | none => rfl
  | some m =>
      rw [hm] at hrel
      cases hrel

theorem exists_at? (hs : s.StandsFor p reads h) {t : Table V} (hi : s.table? i = some t) :
    ∃ m, h.at? i = some m ∧ t.StandsFor p reads m := by
  have hrel := hs.table i
  rw [hi] at hrel
  cases hm : h.at? i with
  | none =>
      rw [hm] at hrel
      cases hrel
  | some m =>
      rw [hm] at hrel
      cases hrel with
      | some ht => exact ⟨m, rfl, ht⟩

end Store.StandsFor

namespace Represents

variable {B : Behaviour Q A M} {p : Policies V K} {sup : Supply W} {serve : Q → Op W V A}
  {reads : Multiset V → M → Prop} {s : Store V W} {h : Shelf M} {i : Nat}

open Store

/-- An event answers what the behaviour says, and leaves tables that stand for what it says. -/
def Refines (B : Behaviour Q A M) (p : Policies V K) (denied : Panic → Prop)
    (reads : Multiset V → M → Prop) (h : Shelf M) (e : Event Q) :
    EStateM.Result Panic (Store V W) (Response A) → Prop
  | .ok a s => ∃ h', B.Step denied h e (.ok a) h' ∧ s.StandsFor p reads h'
  | .error q s => ∃ h', B.Step denied h e (.error q) h' ∧ s.StandsFor p reads h'

theorem create (hrep : Represents B p sup serve reads) (hsup : sup.TakesBack)
    (hs : s.StandsFor p reads h) (capacity : Nat) :
    Refines B p (Denied (p.environment sup) serve s · (.create capacity)) reads h
      (.create capacity) (perform (p.environment sup) serve (.create capacity) s) := by
  have hcreate := Table.steady_create (p.follows_takesBack hsup) (w := s.world) trivial s.fresh
    capacity
  show Refines B p _ reads h _ (EStateM.bind (Store.create sup capacity) _ s)
  rw [EStateM.bind, create_eq]
  rcases hrun : Table.create sup V s.fresh capacity s.world with ⟨e | t, w⟩ | ⟨q, w⟩
  · rw [show Table.create (p.environment sup).toSupply V s.fresh capacity s.world = _ from hrun]
      at hcreate
    exact ⟨_, .notMade ⟨e, rfl, hcreate⟩ ⟨e, rfl⟩ trivial, hs.place w .none⟩
  · rw [show Table.create (p.environment sup).toSupply V s.fresh capacity s.world = _ from hrun]
      at hcreate
    obtain ⟨hsteady, hbag⟩ := hcreate
    have hstep : B.Step (Denied (p.environment sup) serve s · (.create capacity)) h
        (.create capacity) (.ok (.created s.tables.size))
        (h.push (some B.new)) := by
      rw [hs.size]
      exact .created h capacity
    refine ⟨_, hstep, hs.place w (.some ⟨⟨hsteady.sound, hsteady.keyed⟩, ?_⟩)⟩
    rw [hbag]
    exact hrep.new
  · rw [show Table.create (p.environment sup).toSupply V s.fresh capacity s.world = _ from hrun]
      at hcreate
    exact hcreate.elim

theorem copy (hp : p.Coherent) (hsup : sup.TakesBack) (hs : s.StandsFor p reads h) (i : Nat) :
    Refines B p (Denied (p.environment sup) serve s · (.copy i)) reads h (.copy i)
      (perform (p.environment sup) serve (.copy i) s) := by
  show Refines B p _ reads h _ (EStateM.bind (Store.copy (p.environment sup) i) _ s)
  cases hi : s.table? i with
  | none =>
      rw [EStateM.bind, copy_eq_none hi]
      exact ⟨h, .copyAbsent (hs.at?_of_none hi), hs⟩
  | some t =>
      obtain ⟨m, hm, ht⟩ := hs.exists_at? hi
      have hends := Table.run_copy hsup ht.kept hp s.fresh s.world
      rw [EStateM.bind, copy_eq hi]
      rcases hrun : Table.copy (p.environment sup) s.fresh ⟨t, s.world⟩ with ⟨t', u, w⟩ | ⟨q, u, w⟩
      · rw [hrun] at hends
        obtain ⟨rfl, hkept, hbag⟩ := hends
        have hstep : B.Step (Denied (p.environment sup) serve s · (.copy i)) h (.copy i)
            (.ok (.copied (some s.tables.size))) (h.push (some m)) := by
          rw [hs.size]
          exact .copied hm
        simp only [put_self hi]
        exact ⟨_, hstep, hs.place w (.some ⟨hkept, hbag ▸ ht.reads⟩)⟩
      · rw [hrun] at hends
        obtain ⟨rfl, e, rfl, hrefused⟩ := hends
        simp only [put_self hi]
        refine ⟨_, .notMade ⟨_, e, hi, rfl, hrefused⟩ ⟨e, rfl⟩ ?_, hs.place w .none⟩
        show (h.at? i).isSome = true
        rw [hm]
        rfl

theorem drop (hsup : sup.TakesBack) (hs : s.StandsFor p reads h) (i : Nat) :
    Refines B p (Denied (p.environment sup) serve s · (.drop i)) reads h (.drop i)
      (perform (p.environment sup) serve (.drop i) s) := by
  show Refines B p _ reads h _ (EStateM.bind (Store.drop (p.environment sup) i) _ s)
  cases hi : s.table? i with
  | none =>
      rw [EStateM.bind, drop_eq_none hi]
      exact ⟨h, .dropAbsent (hs.at?_of_none hi), hs⟩
  | some t =>
      obtain ⟨m, hm, ht⟩ := hs.exists_at? hi
      obtain ⟨u, r, hrun⟩ := Table.exists_release hsup ht.kept s.world
      rw [EStateM.bind, drop_eq hi, hrun]
      exact ⟨_, .dropped hm, hs.put (lt_of_table? hi) r.world .none⟩

theorem on (hrep : Represents B p sup serve reads) (hs : s.StandsFor p reads h) (i : Nat) (q : Q) :
    Refines B p (Denied (p.environment sup) serve s · (.on i q)) reads h (.on i q)
      (perform (p.environment sup) serve (.on i q) s) := by
  show Refines B p _ reads h _ (EStateM.bind (Store.on i (serve q)) _ s)
  cases hi : s.table? i with
  | none =>
      rw [EStateM.bind, on_eq_none hi]
      exact ⟨h, .onAbsent (hs.at?_of_none hi), hs⟩
  | some t =>
      obtain ⟨m, hm, ht⟩ := hs.exists_at? hi
      have hends := hrep.serves q t m ht s.world
      rw [EStateM.bind, on_eq hi]
      cases hrun : serve q ⟨t, s.world⟩ with
      | ok a r =>
          rw [hrun] at hends
          obtain ⟨hkept, ⟨m', hanswers, hreads⟩, -⟩ := hends
          exact ⟨_, .answered hm hanswers, hs.put (lt_of_table? hi) r.world (.some ⟨hkept, hreads⟩)⟩
      | error panic r =>
          rw [hrun] at hends
          obtain ⟨hkept, ⟨m', hstops, hreads⟩, hdenied⟩ := hends
          exact ⟨_, .stopped ⟨t, r, hi, hrun, hdenied⟩ hdenied.isRefusal hm hstops,
            hs.put (lt_of_table? hi) r.world (.some ⟨hkept, hreads⟩)⟩

/-- One event. -/
theorem refines (hrep : Represents B p sup serve reads) (hp : p.Coherent) (hsup : sup.TakesBack)
    (hs : s.StandsFor p reads h) (e : Event Q) :
    Refines B p (Denied (p.environment sup) serve s · e) reads h e
      (perform (p.environment sup) serve e s) := by
  cases e with
  | create capacity => exact hrep.create hsup hs capacity
  | copy i => exact copy hp hsup hs i
  | drop i => exact drop hsup hs i
  | on i q => exact hrep.on hs i q

/-- A run of a store answers what a run of the data answers, by induction on the events, each of
which starts from tables that stand for what is on the shelf. -/
theorem run_from (hrep : Represents B p sup serve reads) (hp : p.Coherent) (hsup : sup.TakesBack)
    (w : W) (past es : List (Event Q))
    (hs : (Collection.run (p.environment sup) serve past (.ofWorld w)).2.StandsFor p reads h) :
    ∃ h', B.Runs (DeniedAfter (p.environment sup) serve w) past h es
        (Collection.run (p.environment sup) serve es
          (Collection.run (p.environment sup) serve past (.ofWorld w)).2).1 h'
      ∧ (Collection.run (p.environment sup) serve es
          (Collection.run (p.environment sup) serve past (.ofWorld w)).2).2.StandsFor p
            reads h' := by
  induction es generalizing past h with
  | nil => exact ⟨h, .nil past h, hs⟩
  | cons e es ih =>
      have hfirst := hrep.refines hp hsup hs e
      have hleft := run_concat (p.environment sup) serve past e (.ofWorld w)
      have hrest := fun h' => ih (h := h') (past ++ [e])
      rw [Collection.run]
      cases hrun : perform (p.environment sup) serve e
          (Collection.run (p.environment sup) serve past (.ofWorld w)).2 with
      | ok a s' =>
          rw [hrun] at hfirst hleft
          obtain ⟨h', hstep, hs'⟩ := hfirst
          rw [hleft] at hrest
          obtain ⟨h'', hruns, hs''⟩ := hrest h' hs'
          exact ⟨h'', .cons hstep hruns, hs''⟩
      | error q s' =>
          rw [hrun] at hfirst hleft
          obtain ⟨h', hstep, hs'⟩ := hfirst
          rw [hleft] at hrest
          obtain ⟨h'', hruns, hs''⟩ := hrest h' hs'
          exact ⟨h'', .cons hstep hruns, hs''⟩

theorem run (hrep : Represents B p sup serve reads) (hp : p.Coherent) (hsup : sup.TakesBack)
    (w : W) (es : List (Event Q)) :
    ∃ h, B.Runs (DeniedAfter (p.environment sup) serve w) [] .empty es
        (Collection.run (p.environment sup) serve es (.ofWorld w)).1 h
      ∧ (Collection.run (p.environment sup) serve es (.ofWorld w)).2.StandsFor p reads h :=
  hrep.run_from hp hsup w [] es (.ofWorld w)

end Represents

end SeparateChaining
