/-!
# Decimal numerals

Integers are written in base ten without leading zeros, with a minus sign when negative.
-/

namespace FrontEnd.Text

def decimal : Int → String
  | .ofNat n => String.ofList (Nat.toDigits 10 n)
  | .negSucc n => "-" ++ String.ofList (Nat.toDigits 10 (n + 1))

/-- How many digits an integer has in decimal. -/
def digitCount (v : Int) : Nat :=
  (Nat.toDigits 10 v.natAbs).length

/-- The number that a run of ASCII digits denotes, leading zeros included. -/
def decimalValue (digits : List Char) : Nat :=
  Nat.ofDigitChars 10 digits 0

end FrontEnd.Text
