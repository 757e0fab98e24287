/-!
# Folding words into a hash

A hash is built from the words a key is made of. Each word comes with its width in bits; taking
it in rotates the hash so far left by that width and combines the word by exclusive or. A single
word taken into a fresh hash comes out unchanged, so small keys hash to themselves.
-/

namespace SeparateChaining

/-- A piece of a key: `value` occupies `width` bits. -/
structure Word where
  value : UInt64
  width : Nat
  deriving DecidableEq, Repr

/-- `x` rotated left by `k` places, modulo 64. -/
def rotateLeft (x : UInt64) (k : Nat) : UInt64 :=
  let k := (k % 64).toUInt64
  (x <<< k) ||| (x >>> (64 - k))

/-- Takes one word into the hash `h`. -/
def mixWord (h : UInt64) (w : Word) : UInt64 := rotateLeft h w.width ^^^ w.value

/-- The hash of a list of words, taken into a fresh hash in order. -/
def foldWords (ws : List Word) : UInt64 := ws.foldl mixWord 0

end SeparateChaining
