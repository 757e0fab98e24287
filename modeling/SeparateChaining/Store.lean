import SeparateChaining.Table.Lifetime

/-!
# Several tables in one world

A store holds tables that share a world, each under the number of the attempt that made it. Every
attempt takes a number and an identity, also one that fails; the place of a failed attempt, and
that of a released table, stays empty. No two tables of a store have one identity.
-/

namespace SeparateChaining

structure Store (V W : Type) where
  tables : Array (Option (Table V))
  /-- The identity of the next table. -/
  fresh : Nat
  world : W

namespace Store

variable {V K W α : Type}

/-- A store without tables. -/
def ofWorld (w : W) : Store V W := ⟨#[], 0, w⟩

def table? (s : Store V W) (i : Nat) : Option (Table V) := (s.tables[i]?).join

/-- Gives the next place to a table, or leaves it empty. -/
def place (s : Store V W) (t : Option (Table V)) : Store V W :=
  { s with tables := s.tables.push t, fresh := s.fresh + 1 }

/-- Takes the table numbered `i` out of the store while `op` runs on it, and puts back what the
operation leaves, panic or not. There is no answer if there is no such table. -/
def on (i : Nat) (op : Op W V α) : EStateM Panic (Store V W) (Option α) := fun s =>
  let ⟨tables, fresh, w⟩ := s
  match (tables[i]?).join with
  | none => .ok none ⟨tables, fresh, w⟩
  | some t =>
    let tables := tables.setIfInBounds i none
    match op ⟨t, w⟩ with
    | .ok a ⟨t, w⟩ => .ok (some a) ⟨tables.setIfInBounds i (some t), fresh, w⟩
    | .error p ⟨t, w⟩ => .error p ⟨tables.setIfInBounds i (some t), fresh, w⟩

/-- Makes a table that `capacity` elements fit into, and returns its number. -/
def create (sup : Supply W) (capacity : Nat) :
    EStateM Panic (Store V W) (Except AllocError Nat) := fun s =>
  let ⟨tables, fresh, w⟩ := s
  let i := tables.size
  match Table.create sup V fresh capacity w with
  | .ok (.ok t) w => .ok (.ok i) (place ⟨tables, fresh, w⟩ (some t))
  | .ok (.error e) w => .ok (.error e) (place ⟨tables, fresh, w⟩ none)
  | .error p w => .error p (place ⟨tables, fresh, w⟩ none)

/-- Copies the table numbered `i`, and returns the number of the copy. -/
def copy (env : Environment V K W) (i : Nat) : EStateM Panic (Store V W) (Option Nat) := fun s =>
  let n := s.tables.size
  match on i (Table.copy env s.fresh) s with
  | .ok (some t) s => .ok (some n) (s.place (some t))
  | .ok none s => .ok none s
  | .error p s => .error p (s.place none)

/-- Releases the table numbered `i`; says whether there was one. -/
def drop (env : Environment V K W) (i : Nat) : EStateM Panic (Store V W) Bool := fun s =>
  match on i (Table.release env) s with
  | .ok r s => .ok r.isSome { s with tables := s.tables.setIfInBounds i none }
  | .error p s => .error p { s with tables := s.tables.setIfInBounds i none }

/-- Releases every table. A panic in one does not keep the others. -/
def dropAll (env : Environment V K W) (s : Store V W) : Store V W :=
  (List.range s.tables.size).foldl (fun s i =>
    match drop env i s with
    | .ok _ s | .error _ s => s) s

end Store

end SeparateChaining
