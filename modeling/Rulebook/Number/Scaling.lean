import Rulebook.Number.Decimal

/-!
Decimals read in the format itself. A word of 64 bits holds the digits at the front, and the number
they write is multiplied or divided by a power of ten. Each step is rounded, so the result is close
to the decimal but not always the nearest number.
-/

namespace Rulebook.Number

/-- The number that some digits write after a start, as far as a word holds it, and the digits left
over. -/
def Digit.accumulate (start : Nat) : List Digit → Nat × List Digit
  | [] => (start, [])
  | digit :: digits =>
      if 10 * start + digit.val < UInt64.size then accumulate (10 * start + digit.val) digits
      else (start, digit :: digits)

namespace Binary64

def largestPower : Nat := 308

def tenPower (exponent : Nat) : Nat :=
  roundUnits (Nat.pow 10 exponent) 1

def overTenPower (negative : Bool) (units exponent : Nat) : Binary64 :=
  if exponent ≤ largestPower then .ofQuotient negative units (tenPower exponent)
  -- A power that the format does not have is divided by in steps, until nothing is left.
  else if units = 0 then .zero negative
  else overTenPower negative (roundUnits units (tenPower largestPower)) (exponent - largestPower)
termination_by exponent
decreasing_by
  simp only [largestPower] at *
  omega

def timesTenPower (negative : Bool) (units exponent : Nat) : Binary64 :=
  if exponent ≤ largestPower then
    .ofQuotient negative (units * tenPower exponent) (unitsOfOne * unitsOfOne)
  else if units = 0 then .zero negative
  else .infinite negative

end Binary64

/-- The number that a decimal becomes if its digits and its power of ten are rounded each, and then
what they make together. -/
def Decimal.scaled (negative : Bool) (decimal : Decimal) : Binary64 :=
  match decimal.exponent with
  | .ofNat exponent => .timesTenPower negative (Binary64.roundUnits decimal.digits 1) exponent
  | .negSucc exponent => .overTenPower negative (Binary64.roundUnits decimal.digits 1) (exponent + 1)

end Rulebook.Number
