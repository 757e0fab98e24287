import SeparateChaining.Notice
import SeparateChaining.Scenario.Key

/-!
# The record of a scenario

Every call that a table makes to foreign code and to its supply is an event, and so is every
notice. A scenario asks for events by kind.
-/

namespace SeparateChaining.Scenario

/-- One entry of the record. -/
inductive Event
  | granted (block : Block) (count : Nat)
  | refused (block : Block) (count : Nat)
  | freed (block : Block) (count : Nat)
  | noticed (notice : Notice)
  | hashed (k : Key)
  | compared (stored sought : Key)
  | extracted
  | disposed (k : Key)
  deriving DecidableEq

/-- What an event is about. -/
inductive EventKind
  | alloc
  | log
  | hash
  | eq
  | extract
  | drop
  deriving DecidableEq, Repr

namespace Event

def kind : Event → EventKind
  | granted .. | refused .. | freed .. => .alloc
  | noticed _ => .log
  | hashed _ => .hash
  | compared .. => .eq
  | extracted => .extract
  | disposed _ => .drop

def blockText : Block → String
  | .node => "node"
  | .bucket => "bucket"

def render (ty : KeyType) : Event → String
  | granted b n => s!"alloc {blockText b} {n}"
  | refused b n => s!"refuse {blockText b} {n}"
  | freed b n => s!"free {blockText b} {n}"
  | noticed n => s!"log {n.line}"
  | hashed k => s!"hash {k.render ty}"
  | compared a b => s!"eq {a.render ty} {b.render ty}"
  | extracted => "extract"
  | disposed k => s!"drop {k.render ty}"

end Event

end SeparateChaining.Scenario
