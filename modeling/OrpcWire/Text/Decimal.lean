/-!
# Decimal numbers

A number is one digit or more, with leading zeros allowed and a plus sign in front if any.
-/

namespace OrpcWire.Decimal

/-- The number that the characters spell, if they spell one and it is not beyond `limit`. -/
def parse? (limit : Nat) (chars : List Char) : Option Nat :=
  let digits := match chars with
    | '+' :: digits => digits
    | digits => digits
  if digits ≠ [] ∧ digits.all Char.isDigit ∧ Nat.ofDigitChars 10 digits 0 ≤ limit then
    some (Nat.ofDigitChars 10 digits 0)
  else
    none

end OrpcWire.Decimal
