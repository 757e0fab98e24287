import SeparateChaining.Environment
import SeparateChaining.Text.Case

/-!
# Policies

A table never sees keys directly. Three policies tell it about them: which part of a value is its
key, what a key hashes to, and when two keys are equal. Policies that are plain functions make up
a `Policies`, and from that an environment in which no foreign code panics.
-/

namespace SeparateChaining

namespace Extract

/-- The value is its own key. -/
def whole (v : V) : V := v

/-- The first half of a pair is its key. -/
def first (v : K × T) : K := v.1

end Extract

namespace KeyEq

/-- Keys are equal when their type says so. -/
def standard [BEq K] (a b : K) : Bool := a == b

/-- Texts are equal when they differ at most in the case of ASCII letters. -/
def ignoringCase (a b : String) : Bool := Text.equalIgnoringCase a b

end KeyEq

structure Policies (V K : Type) where
  extract : V → K
  hash : K → UInt64
  keyEq : K → K → Bool

namespace Policies

variable {V K W : Type}

/-- The policies as foreign code that acts on no world. -/
def caller (p : Policies V K) : Caller V K W where
  extract _ v := pure (p.extract v)
  hash _ k := pure (p.hash k)
  keyEq _ a b := pure (p.keyEq a b)
  copy _ v := pure v
  dispose _ _ := pure ()
  disposeUnwinding _ _ w := w

def environment (p : Policies V K) (sup : Supply W) : Environment V K W :=
  { p.caller, sup with }

end Policies

/-- A supply that grants every request, and has memory for requests of up to `ceiling` bytes. -/
def Supply.unlimited (ceiling nodeBytes slotBytes : Nat) : Supply W where
  allocate _ _ w := (.ok (), w)
  deallocate _ _ := pure ()
  reserve bytes w := (bytes ≤ ceiling, w)
  report _ w := w
  nodeBytes
  slotBytes

end SeparateChaining
