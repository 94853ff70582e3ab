import Rulebook.Number.Shortest
import Rulebook.Proofs.Number.Decimal

/-!
The shortest decimal of a floating-point number reads back as that number.
-/

namespace Rulebook.Number.Binary64

theorem toBinary64_of_readsBack {units : Nat} {decimal : Decimal}
    (read : readingBack?.readsBack units decimal = true) (representable : Representable units) :
    decimal.toBinary64 false = finite false units representable := by
  unfold readingBack?.readsBack at read
  split at read
  next negative units' _ found =>
    obtain rfl := eq_of_beq read
    obtain rfl : negative = false := by
      rw [Decimal.toBinary64_eq, ofQuotient] at found
      split at found <;> simp_all
    exact found
  next => cases read

theorem readsBack_of_readingBack? {units dropped : Nat} {exact decimal : Decimal}
    (found : readingBack? units exact dropped = some decimal) :
    readingBack?.readsBack units decimal = true := by
  rw [readingBack?] at found
  split at found
  next below above =>
    obtain rfl := Option.some.inj found
    have lower := div_le_roundQuotient exact.digits (Nat.pow 10 dropped)
    have upper := roundQuotient_le exact.digits (Nat.pow 10 dropped)
    rcases Nat.lt_or_eq_of_le lower with more | same
    · rw [show roundQuotient exact.digits (Nat.pow 10 dropped) =
        exact.digits / Nat.pow 10 dropped + 1 by omega]
      exact above
    · rw [← same]
      exact below
  next below _ =>
    obtain rfl := Option.some.inj found
    exact below
  next _ above =>
    obtain rfl := Option.some.inj found
    exact above
  next => cases found

theorem value_exactDecimal (units : Nat) :
    (exactDecimal units).value = units / unitsOfOne := by
  obtain ⟨bits, known, one⟩ := exists_unitsOfOne
  have exact : exactDecimal units = ⟨units * 5 ^ bits, -bits⟩ := by
    delta exactDecimal
    rw [← Nat.pow_eq]
    have exponent : (-1074 : Int) = -bits := by omega
    rw [exponent, ← known]
  have five : (5 : ℚ) ^ bits ≠ 0 := by positivity
  have ten : (10 : ℚ) ^ bits = 2 ^ bits * 5 ^ bits := by
    rw [← mul_pow]
    norm_num
  rw [exact, one, Decimal.value, zpow_neg, zpow_natCast, ten]
  push_cast
  field_simp

/-- The shortest decimal of a number reads back as that number, with either sign. -/
theorem toBinary64_shortest {units : Nat} (representable : Representable units)
    (negative : Bool) :
    (shortest units).toBinary64 negative = finite negative units representable := by
  apply Decimal.toBinary64_of_positive
  delta shortest
  dsimp only
  rw [Decimal.toBinary64_congr (Decimal.value_shorten _)]
  generalize search : List.findSome? _ _ = kept
  cases kept with
  | none =>
      exact Decimal.toBinary64_of_value false representable (value_exactDecimal units)
  | some decimal =>
      obtain ⟨kept, -, found⟩ := List.exists_of_findSome?_eq_some search
      exact toBinary64_of_readsBack (readsBack_of_readingBack? found) representable

end Rulebook.Number.Binary64
