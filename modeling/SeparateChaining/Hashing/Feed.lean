import SeparateChaining.Hashing.Word

/-!
# What a value feeds to a hash

A value is hashed as the writes it makes: whole words, and runs of bytes. `feed` of a compound
value is the writes of its parts in order, with a count or a terminator where the parts alone
would be ambiguous. `Write.words` says which words a write stands for: a run of bytes is one
8-bit word per byte, so cutting a run in two changes nothing.
-/

namespace SeparateChaining

/-- One write of a value into a hash. -/
inductive Write
  | word (w : Word)
  | run (bytes : List UInt8)
  deriving DecidableEq, Repr

def Write.words : Write → List Word
  | word w => [w]
  | run bytes => bytes.map fun b => ⟨b.toUInt64, 8⟩

/-- The hash of a sequence of writes. -/
def foldWrites (ws : List Write) : UInt64 := foldWords (ws.flatMap Write.words)

/-- The hash before a sequence of values is taken in and after each of them, where every value is
given by its writes and `h` is the hash at first. -/
def foldEach (h : UInt64) : List (List Write) → List UInt64
  | [] => [h]
  | ws :: vs => h :: foldEach ((ws.flatMap Write.words).foldl mixWord h) vs

namespace Feed

/-- The low `width` bits of `n`, as one word. -/
def unsigned (width n : Nat) : List Write := [.word ⟨(BitVec.ofNat width n).toNat.toUInt64, width⟩]

/-- `i` in two's complement of `width` bits, as one word. -/
def signed (width : Nat) (i : Int) : List Write := unsigned width (BitVec.ofInt width i).toNat

/-- The `count` low bytes of `n`, least first. -/
def littleEndian (count n : Nat) : List UInt8 :=
  (List.range count).map fun k => (n >>> (8 * k)).toUInt8

/-- A 128-bit integer in two's complement, as a run of its bytes, least first. -/
def wide (i : Int) : List Write := [.run (littleEndian 16 (BitVec.ofInt 128 i).toNat)]

def bool (b : Bool) : List Write := unsigned 8 b.toNat

def char (c : Char) : List Write := unsigned 32 c.toNat

def unit : List Write := []

/-- The bytes of a text and a byte that no text contains. -/
def text (s : String) : List Write := .run s.toUTF8.toList :: unsigned 8 255

/-- How many parts follow. -/
def length (n : Nat) : List Write := unsigned 64 n

def bytes (bs : List UInt8) : List Write := length bs.length ++ [.run bs]

def words32 (ns : List Nat) : List Write :=
  length ns.length ++ [.run (ns.flatMap (littleEndian 4))]

def texts (ss : List String) : List Write := length ss.length ++ ss.flatMap text

/-- Whether a part follows, and then the part. -/
def optional (feed : α → List Write) : Option α → List Write
  | none => length 0
  | some a => length 1 ++ feed a

end Feed

end SeparateChaining
