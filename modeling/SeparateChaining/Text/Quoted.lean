import SeparateChaining.Text.Invisible

/-!
# Quoted text

Two ways of writing a text between quotes on one line. The debugging form (`quoted`) names the
usual control characters and writes every other character that does not show by its number in
braces. The interchange form (`jsonQuoted`) leaves all but the control characters as they are.
-/

namespace SeparateChaining.Text

/-- The digits of `n` to base 16, in small letters and without leading zeros. -/
def hex (n : Nat) : String := String.ofList (Nat.toDigits 16 n)

/-- `hex n` with zeros in front, up to four digits. -/
def hex4 (n : Nat) : String :=
  let digits := hex n
  String.ofList (List.replicate (4 - digits.length) '0') ++ digits

/-- A character in the debugging form. -/
def escapeChar (c : Char) : String :=
  match c with
  | '\x00' => "\\0"
  | '\t' => "\\t"
  | '\n' => "\\n"
  | '\r' => "\\r"
  | '"' => "\\\""
  | '\\' => "\\\\"
  | c => if isInvisible c then "\\u\x7b" ++ hex c.toNat ++ "\x7d" else String.singleton c

/-- A character in the interchange form. -/
def escapeJsonChar (c : Char) : String :=
  match c with
  | '"' => "\\\""
  | '\\' => "\\\\"
  | '\x08' => "\\b"
  | '\x0c' => "\\f"
  | '\n' => "\\n"
  | '\r' => "\\r"
  | '\t' => "\\t"
  | c => if c.toNat < 32 then "\\u" ++ hex4 c.toNat else String.singleton c

def between (escape : Char → String) (s : String) : String :=
  "\"" ++ String.join (s.toList.map escape) ++ "\""

def quoted (s : String) : String := between escapeChar s

def jsonQuoted (s : String) : String := between escapeJsonChar s

end SeparateChaining.Text
