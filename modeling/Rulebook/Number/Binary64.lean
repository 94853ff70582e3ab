/-!
Binary floating-point numbers of 64 bits.

A finite number is held exactly, as a whole multiple of the smallest positive one, `2 ^ -1074`.
The format then says only which multiples there are: those with at most 53 significant bits below
`2 ^ 1024`. Order, equality and truncation are order, equality and division of whole numbers, and
a quotient is rounded to the nearest number by one division.
-/

namespace Rulebook.Number

/-- The number one, counted in units of `2 ^ -1074`. -/
def unitsOfOne : Nat := Nat.pow 2 1074

/-- A magnitude of the format, counted in units: below `2 ^ 1024`, and with at most 53 bits between
its first one and its last. -/
def Representable (units : Nat) : Prop :=
  units / unitsOfOne < Nat.pow 2 1024 ∧ Nat.pow 2 (units.log2 - 52) ∣ units

instance (units : Nat) : Decidable (Representable units) :=
  inferInstanceAs (Decidable (_ ∧ _))

theorem representable_zero : Representable 0 := by
  constructor
  · have positive (exponent : Nat) : 0 < Nat.pow 2 exponent := Nat.two_pow_pos exponent
    rw [Nat.zero_div]
    apply positive
  · exact Nat.dvd_zero _

/-- A number of the format, with two zeros and one `nan`. -/
inductive Binary64 where
  | nan
  | infinite (negative : Bool)
  | finite (negative : Bool) (units : Nat) (representable : Representable units)
deriving DecidableEq

namespace Binary64

def isFinite : Binary64 → Bool
  | finite .. => true
  | _ => false

def zero (negative : Bool) : Binary64 :=
  finite negative 0 representable_zero

instance : Inhabited Binary64 := ⟨zero false⟩

def roundQuotient (dividend divisor : Nat) : Nat :=
  let quotient := dividend / divisor
  let twice := 2 * (dividend % divisor)
  if twice < divisor ∨ (twice = divisor ∧ quotient % 2 = 0) then quotient else quotient + 1

/-- The units that a magnitude rounds to, a multiple of the spacing between the powers of two around
it. -/
def roundUnits (dividend divisor : Nat) : Nat :=
  let scaled := dividend * unitsOfOne
  let spacing := Nat.pow 2 ((scaled / divisor).log2 - 52)
  roundQuotient scaled (divisor * spacing) * spacing

/-- The number nearest to `dividend / divisor`, with the given sign. -/
def ofQuotient (negative : Bool) (dividend divisor : Nat) : Binary64 :=
  let units := roundUnits dividend divisor
  if representable : Representable units then finite negative units representable
  else infinite negative

def signed (negative : Bool) (units : Nat) : Int :=
  if negative then -(units : Int) else units

def order? : Binary64 → Binary64 → Option Ordering
  | nan, _ | _, nan => none
  | infinite negative, infinite negative' =>
      some (if negative = negative' then .eq else if negative then .lt else .gt)
  | infinite negative, finite .. => some (if negative then .lt else .gt)
  | finite .., infinite negative => some (if negative then .gt else .lt)
  | finite negative units _, finite negative' units' _ =>
      some (compare (signed negative units) (signed negative' units'))

def truncate? : Binary64 → Option Int
  | finite negative units _ => some (signed negative (units / unitsOfOne))
  | _ => none

def magnitudeBits (units : Nat) : Nat :=
  let shift := units.log2 - 52
  shift * Nat.pow 2 52 + units / Nat.pow 2 shift

/-- The 64 bits of the number: the sign, eleven bits of exponent, fifty-two of fraction. -/
def bits : Binary64 → Nat
  | nan => 0x7FF8000000000000
  | infinite negative => signBit negative + 0x7FF0000000000000
  | finite negative units _ => signBit negative + magnitudeBits units
where
  signBit (negative : Bool) : Nat := if negative then Nat.pow 2 63 else 0

end Binary64

end Rulebook.Number
