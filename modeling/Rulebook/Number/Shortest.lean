import Rulebook.Number.Decimal

/-!
The shortest decimal that reads back as a given floating-point number.

A finite number of the format is a decimal with finitely many digits. Cut after its first digit,
its first two, and so on, it has two neighbours with that many digits; the first cut at which one
of them reads back gives the answer. Seventeen digits are always enough.
-/

namespace Rulebook.Number.Binary64

def exactDecimal (units : Nat) : Decimal :=
  ⟨units * Nat.pow 5 1074, -1074⟩

/-- Of the two neighbours of an exact decimal with some digits cut off, the one that reads back as
the given units. -/
def readingBack? (units : Nat) (exact : Decimal) (dropped : Nat) : Option Decimal :=
  let grid := Nat.pow 10 dropped
  let below : Decimal := ⟨exact.digits / grid, exact.exponent + dropped⟩
  let above : Decimal := ⟨exact.digits / grid + 1, exact.exponent + dropped⟩
  match readsBack below, readsBack above with
  | true, true => some ⟨roundQuotient exact.digits grid, exact.exponent + dropped⟩
  | true, false => some below
  | false, true => some above
  | false, false => none
where
  readsBack (decimal : Decimal) : Bool :=
    match decimal.toBinary64 false with
    | finite _ units' _ => units' == units
    | _ => false

/-- The decimal with the fewest digits that reads back as the magnitude, and the nearest of those.
-/
def shortest (units : Nat) : Decimal :=
  let exact := exactDecimal units
  let count := (Digit.ofNat exact.digits).length
  let kept := (List.range 17).findSome? fun kept => readingBack? units exact (count - (kept + 1))
  (kept.getD exact).shorten

end Rulebook.Number.Binary64
