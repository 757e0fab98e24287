/-!
# Layouts of collections

The text of a collection for debugging, on one line or over many. A layout is an atom of text, a
group of layouts between brackets, or an entry of two layouts joined by a colon. On one line the
members of a group are parted by commas; over many lines each member has lines of its own, indented
by four blanks and followed by a comma. An empty group is just its brackets.
-/

namespace SeparateChaining.Text

inductive Layout
  | atom (text : String)
  | group (opening closing : String) (members : List Layout)
  | entry (key value : Layout)
  deriving Inhabited

namespace Layout

def set (members : List Layout) : Layout := group "\x7b" "\x7d" members

def list (members : List Layout) : Layout := group "[" "]" members

def tuple (members : List Layout) : Layout := group "(" ")" members

/-- The layout on one line. -/
def inline : Layout → String
  | atom text => text
  | group opening closing members =>
    opening ++ String.intercalate ", " (members.map inline) ++ closing
  | entry key value => key.inline ++ ": " ++ value.inline

/-- A text with four blanks in front of each of its lines. -/
def indent (s : String) : String := "    " ++ s.replace "\n" "\n    "

/-- The layout over many lines. -/
def pretty : Layout → String
  | atom text => text
  | group opening closing members =>
    if members.isEmpty then opening ++ closing
    else opening ++ "\n" ++ String.join (members.map fun m => indent m.pretty ++ ",\n") ++ closing
  | entry key value => key.pretty ++ ": " ++ value.pretty

end Layout

end SeparateChaining.Text
