import SeparateChaining.Hashing
import SeparateChaining.Text.Layout
import SeparateChaining.Text.Quoted

/-!
# Keys and values of a scenario

A scenario works on keys of one type and on values that are a key, alone or with a number beside
it. `Key.render` writes a key for interchange and `Key.layout` for debugging.
-/

namespace SeparateChaining.Scenario

/-- The type of a scenario's keys. Integers have so many bits. -/
inductive KeyType
  | unsigned (bits : Nat)
  | signed (bits : Nat)
  /-- Unsigned integers of 128 bits. -/
  | wide
  | text
  | bytes
  deriving DecidableEq, Repr

inductive Key
  | int (i : Int)
  | text (s : String)
  | bytes (bs : List UInt8)
  deriving DecidableEq, Repr

namespace KeyType

/-- What a key of this type feeds to a hash. -/
def feed : KeyType → Key → List Write
  | unsigned bits, .int i => Feed.unsigned bits i.toNat
  | signed bits, .int i => Feed.signed bits i
  | _, .int i => Feed.wide i
  | _, .text s => Feed.text s
  | _, .bytes bs => Feed.bytes bs

/-- An integer reduced to those of this type. -/
def reduce : KeyType → Int → Int
  | unsigned bits, i => (BitVec.ofInt bits i).toNat
  | signed bits, i => (BitVec.ofInt bits i).toInt
  | _, i => (BitVec.ofInt 128 i).toNat

/-- The key that stands for the number `n`. -/
def ofNumber (ty : KeyType) (n : UInt64) : Key :=
  match ty with
  | text => .text ("k" ++ toString n)
  | bytes => .bytes (Feed.littleEndian 8 n.toNat)
  | ty => .int (ty.reduce n.toNat)

end KeyType

/-- A list of numbers in brackets, without blanks. -/
def bracketed (ns : List String) : String := "[" ++ String.intercalate "," ns ++ "]"

namespace Key

/-- The key for interchange. Integers of 128 bits stand in quotes. -/
def render (ty : KeyType) : Key → String
  | .int i => if ty = .wide then Text.jsonQuoted (toString i) else toString i
  | .text s => Text.jsonQuoted s
  | .bytes bs => bracketed (bs.map toString)

def layout : Key → Text.Layout
  | .int i => .atom (toString i)
  | .text s => .atom (Text.quoted s)
  | .bytes bs => .list (bs.map fun b => .atom (toString b))

end Key

/-- An element: a key, and the number beside it if the scenario's values are pairs. -/
structure Item where
  key : Key
  payload : Option Int64
  deriving DecidableEq

def Item.layout (v : Item) : Text.Layout :=
  match v.payload with
  | none => v.key.layout
  | some n => .tuple [v.key.layout, .atom (toString n)]

/-! ## Equality of keys -/

/-- When a scenario takes two keys for equal. -/
inductive Equality
  | standard
  /-- Texts that differ at most in the case of letters are equal. -/
  | ignoringCase
  /-- Keys of one residue are equal; texts and bytes count by their length. Modulo zero all keys
  leave zero. -/
  | residue (modulus : Nat)
  | never
  | always
  /-- A stored key equals those that are not below it. -/
  | atMost
  /-- A stored text equals those that it starts with. -/
  | startsWith
  deriving DecidableEq, Repr

/-- The integer that stands for a key where residues are compared. -/
def Key.measure : Key → Int
  | .int i => i
  | .text s => s.utf8ByteSize
  | .bytes bs => bs.length

/-- Whether a list of bytes comes before another, or is the other, in the order of a dictionary. -/
def bytesAtMost : List UInt8 → List UInt8 → Bool
  | [], _ => true
  | _ :: _, [] => false
  | a :: as, b :: bs => a < b || (a == b && bytesAtMost as bs)

/-- Whether the stored key `a` counts as equal to the key `b`. -/
def Equality.holds (e : Equality) (a b : Key) : Bool :=
  match e, a, b with
  | standard, a, b => a = b
  | ignoringCase, .text a, .text b => Text.equalIgnoringCase a b
  | ignoringCase, a, b => a = b
  | residue m, a, b => a.measure % max 1 m = b.measure % max 1 m
  | never, _, _ => false
  | always, _, _ => true
  | atMost, .int a, .int b => a ≤ b
  | atMost, .text a, .text b => bytesAtMost a.toUTF8.toList b.toUTF8.toList
  | atMost, .bytes a, .bytes b => bytesAtMost a b
  | atMost, _, _ => false
  | startsWith, .text a, .text b => a.startsWith b
  | startsWith, a, b => a = b

end SeparateChaining.Scenario
