/-!
# Case

Capital and small ASCII letters, told apart or not. Other letters have no case here.
-/

namespace SeparateChaining.Text

/-- An ASCII capital letter made small; any other byte as it is. -/
def lowerByte (b : UInt8) : UInt8 := if 65 ≤ b ∧ b ≤ 90 then b + 32 else b

def lowerBytes (s : String) : List UInt8 := s.toUTF8.toList.map lowerByte

/-- Whether two texts differ at most in the case of ASCII letters. -/
def equalIgnoringCase (a b : String) : Bool := lowerBytes a == lowerBytes b

end SeparateChaining.Text
