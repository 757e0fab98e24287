import SeparateChaining.Hashing.Feed
import SeparateChaining.Text.Case

/-!
# Ways of hashing

What becomes of the writes that a key makes: they are folded together, perhaps with letters made
small first, or reduced to a few hashes so that keys collide.
-/

namespace SeparateChaining

inductive Hashing
  /-- The words of the key folded together. -/
  | folded
  /-- Likewise, with the capital letters in runs of bytes made small. -/
  | foldedIgnoringCase
  | constant (hash : UInt64)
  /-- The words folded together, modulo a number; modulo zero they all leave zero. -/
  | residue (modulus : UInt64)
  deriving DecidableEq, Repr

def Write.lower : Write → Write
  | word w => word w
  | run bytes => run (bytes.map Text.lowerByte)

/-- The hash of a key that makes the given writes. -/
def Hashing.hash : Hashing → List Write → UInt64
  | folded, ws => foldWrites ws
  | foldedIgnoringCase, ws => foldWrites (ws.map Write.lower)
  | constant h, _ => h
  | residue m, ws => foldWrites ws % max 1 m

end SeparateChaining
