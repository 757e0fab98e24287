import SeparateChaining.Ladder
import SeparateChaining.Storage

/-!
# Notices

What a table and a budget report about themselves while they work, as data. `severity` and
`message` say how a notice reads in a log.
-/

namespace SeparateChaining

inductive Severity
  | warn
  | debug
  | trace
  deriving DecidableEq, Repr

inductive Notice
  /-- More buckets were asked for than the ladder has. -/
  | saturated (requested : Nat)
  | grew (source target len : Nat)
  | clearing (len buckets : Nat)
  | refused (count : Nat) (block : Block) (available : Nat)
  deriving DecidableEq, Repr

def Severity.name : Severity → String
  | warn => "WARN"
  | debug => "DEBUG"
  | trace => "TRACE"

namespace Notice

def severity : Notice → Severity
  | saturated _ => .warn
  | grew .. => .debug
  | clearing .. => .trace
  | refused .. => .debug

def message : Notice → String
  | saturated requested => s!"requested {requested} buckets exceeds the largest prime; saturating"
  | grew source target len =>
    s!"grew hash table from {source} to {target} buckets for {len} elements"
  | clearing len buckets => s!"clearing {len} elements from {buckets} buckets"
  | refused count block available =>
    s!"budget refused {count} {block.name} units ({available} available)"

/-- The notice as a line of a log. -/
def line (n : Notice) : String := n.severity.name ++ " " ++ n.message

end Notice

/-- What is noticed when buckets for `n` elements are asked for. -/
def Ladder.notice? (n : Nat) : Option Notice := if top < n then some (.saturated n) else none

end SeparateChaining
