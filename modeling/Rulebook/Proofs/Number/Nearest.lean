import Mathlib.Algebra.Order.Floor.Ring
import Mathlib.Data.Rat.Floor
import Rulebook.Proofs.Number.Decimal

/-!
The rational number that a floating-point number is: its whole part, and what it means that it is
the nearest one to another number. Whole numbers are read as the nearest one.
-/

namespace Rulebook.Number

/-- The whole part of a number, toward zero. -/
def wholePart (value : ℚ) : Int :=
  if 0 ≤ value then ⌊value⌋ else ⌈value⌉

namespace Binary64

def value? : Binary64 → Option ℚ
  | finite negative units _ => some (signed negative units / unitsOfOne)
  | _ => none

theorem signed_div (negative : Bool) (dividend divisor : Nat) :
    signed negative (dividend / divisor) = wholePart (signed negative dividend / divisor) := by
  have nonneg : (0 : ℚ) ≤ dividend / divisor := by positivity
  have floor := Rat.floor_natCast_div_natCast dividend divisor
  cases negative with
  | false => simp [wholePart, nonneg, floor]
  | true =>
      have quotient : (signed true dividend : ℚ) / divisor = -(dividend / divisor) := by
        rw [signed_true, Int.cast_neg, Int.cast_natCast, neg_div]
      rw [quotient, wholePart, signed_true, Int.natCast_div, ← floor]
      split
      next zero =>
        have none : (dividend : ℚ) / divisor = 0 := le_antisymm (neg_nonneg.mp zero) nonneg
        simp [none]
      next => rw [Int.ceil_neg]

theorem truncate?_eq (number : Binary64) : number.truncate? = number.value?.map wholePart := by
  cases number with
  | nan => rfl
  | infinite negative => rfl
  | finite negative units representable =>
      rw [truncate?, value?, Option.map_some, signed_div]

/-- Whether a floating-point number is the nearest one to an exact number, and the even one of two
equally near. -/
structure RoundsTo (exact : ℚ) (number : Binary64) (rounded : ℚ) : Prop where
  value : number.value? = some rounded
  nearest : ∀ other value, value? other = some value → |rounded - exact| ≤ |value - exact|
  even : ∀ other value, value? other = some value → value ≠ rounded →
    |value - exact| = |rounded - exact| → Even number.bits

theorem even_bits {negative : Bool} {units : Nat} {representable : Representable units}
    (even : EndsEven units) : Even (finite negative units representable).bits := by
  have sign : 2 ∣ bits.signBit negative := by
    cases negative <;> decide
  have last : 2 ∣ units / Nat.pow 2 (units.log2 - 52) := by
    apply Nat.dvd_div_of_mul_dvd
    rw [Nat.mul_comm]
    exact even
  have shift : 2 ∣ (units.log2 - 52) * Nat.pow 2 52 := Dvd.dvd.mul_left (by decide) _
  exact even_iff_two_dvd.mpr (Nat.dvd_add sign (Nat.dvd_add shift last))

theorem signed_mul (negative : Bool) (units factor : Nat) :
    signed negative (units * factor) = signed negative units * factor := by
  cases negative <;> simp [signed]

theorem abs_value_sub (negative negative' : Bool) (units dividend : Nat) {divisor : Nat}
    (positive : 0 < divisor) :
    |(signed negative units : ℚ) / unitsOfOne - signed negative' dividend / divisor| *
        (unitsOfOne * divisor) =
      |signed negative (units * divisor) - signed negative' (dividend * unitsOfOne)| := by
  have onePositive := unitsOfOne_pos
  generalize unitsOfOne = one at *
  have parts : (0 : ℚ) < one * divisor := by positivity
  have oneNonzero : (one : ℚ) ≠ 0 := by positivity
  have nonzero : (divisor : ℚ) ≠ 0 := by positivity
  rw [div_sub_div _ _ oneNonzero nonzero, abs_div, abs_of_pos parts, div_mul_cancel₀ _ parts.ne',
    signed_mul, signed_mul]
  push_cast
  rw [mul_comm (one : ℚ)]

theorem abs_signed_sub (negative : Bool) (units other : Nat) :
    |signed negative units - signed negative other| = units.dist other := by
  rw [Int.abs_eq_natAbs, Nat.dist]
  cases negative <;> simp only [signed_true, signed_false] <;> omega

theorem abs_signed_sub_of_ne {negative negative' : Bool} (differ : negative ≠ negative')
    (units other : Nat) :
    |signed negative units - signed negative' other| = (units + other : Nat) := by
  rw [Int.abs_eq_natAbs]
  cases negative <;> cases negative' <;> simp_all only [ne_eq, not_true_eq_false, signed_true,
    signed_false] <;> omega

theorem roundPrecise_nearest_signed (negative negative' : Bool) (dividend : Nat) {divisor : Nat}
    (positive : 0 < divisor) {other : Nat} (precise : HasPrecision other) :
    |signed negative (roundPrecise dividend divisor * divisor) - signed negative dividend| ≤
      |signed negative' (other * divisor) - signed negative dividend| ∧
    (signed negative' other ≠ signed negative (roundPrecise dividend divisor) →
      |signed negative' (other * divisor) - signed negative dividend| =
        |signed negative (roundPrecise dividend divisor * divisor) - signed negative dividend| →
      EndsEven (roundPrecise dividend divisor)) := by
  rw [abs_signed_sub]
  by_cases sameSign : negative' = negative
  · subst sameSign
    obtain ⟨near, tie⟩ := roundPrecise_nearest dividend positive precise
    rw [abs_signed_sub]
    refine ⟨by exact_mod_cast near, ?_⟩
    intro differs same
    refine tie ?_ (by exact_mod_cast same.symm)
    rintro rfl
    exact differs rfl
  · -- A number of the other sign is not nearer than zero, which has either sign.
    obtain ⟨near, tie⟩ := roundPrecise_nearest dividend positive (hasPrecision_of_lt (Nat.two_pow_pos 53))
    rw [abs_signed_sub_of_ne sameSign]
    rw [Nat.zero_mul, Nat.dist_zero_left] at near tie
    refine ⟨by omega, ?_⟩
    intro differs same
    have none : other = 0 := by
      have product : other * divisor = 0 := by omega
      exact (Nat.mul_eq_zero.mp product).resolve_right (Nat.ne_of_gt positive)
    refine tie ?_ (by omega)
    intro zero
    rw [none, ← zero] at differs
    exact differs (by cases negative <;> cases negative' <;> rfl)

theorem exists_units_of_value? {number : Binary64} {value : ℚ} (isValue : number.value? = some value) :
    ∃ negative units, HasPrecision units ∧ value = signed negative units / unitsOfOne := by
  cases number with
  | nan => cases isValue
  | infinite _ => cases isValue
  | finite negative units representable =>
      exact ⟨negative, units, (representable_iff.mp representable).2, (Option.some.inj isValue).symm⟩

theorem roundsTo_ofQuotient {negative : Bool} {dividend divisor units : Nat}
    {representable : Representable units} (positive : 0 < divisor)
    (rounded : ofQuotient negative dividend divisor = finite negative units representable) :
    RoundsTo (signed negative dividend / divisor) (finite negative units representable)
      (signed negative units / unitsOfOne) := by
  rw [ofQuotient_eq_finite_iff, roundUnits_eq] at rounded
  have one : (0 : ℚ) < unitsOfOne := by exact_mod_cast unitsOfOne_pos
  have parts : (0 : ℚ) < unitsOfOne * divisor := mul_pos one (by exact_mod_cast positive)
  have counted (negative' : Bool) (units' : Nat) :=
    abs_value_sub negative' negative units' dividend positive
  refine ⟨rfl, ?_, ?_⟩
  · intro other value isValue
    obtain ⟨negative', units', precise, rfl⟩ := exists_units_of_value? isValue
    have near := (roundPrecise_nearest_signed negative negative' (dividend * unitsOfOne) positive
      precise).1
    rw [rounded] at near
    apply le_of_mul_le_mul_right _ parts
    rw [counted, counted]
    exact_mod_cast near
  · intro other value isValue differs same
    obtain ⟨negative', units', precise, rfl⟩ := exists_units_of_value? isValue
    have tie := (roundPrecise_nearest_signed negative negative' (dividend * unitsOfOne) positive
      precise).2
    rw [rounded] at tie
    rw [← mul_left_inj' parts.ne', counted, counted] at same
    refine even_bits (tie ?_ (by exact_mod_cast same))
    intro sameUnits
    rw [sameUnits] at differs
    exact differs rfl

theorem roundPrecise_le {dividend divisor bound : Nat} (positive : 0 < divisor)
    (precise : HasPrecision bound) (le : dividend ≤ bound * divisor) :
    roundPrecise dividend divisor ≤ bound := by
  have near := (roundPrecise_nearest dividend positive precise).1
  rw [Nat.dist_eq_sub_of_le_right le, Nat.dist] at near
  refine Nat.le_of_mul_le_mul_right ?_ positive
  omega

theorem exists_ofQuotient_whole (negative : Bool) {whole : Nat} (small : whole ≤ 2 ^ 63) :
    ∃ representable, ofQuotient negative whole 1 =
      finite negative (roundPrecise whole 1 * unitsOfOne) representable := by
  obtain ⟨bits, -, one⟩ := exists_unitsOfOne
  have bound : roundPrecise whole 1 ≤ 2 ^ 63 :=
    roundPrecise_le Nat.one_pos ⟨1, 63, by decide, by decide⟩ (by omega)
  have precise : HasPrecision (roundPrecise whole 1 * unitsOfOne) := by
    rw [one, hasPrecision_mul_two_pow_iff]
    exact hasPrecision_roundPrecise whole 1
  have below : roundPrecise whole 1 * unitsOfOne / unitsOfOne < Nat.pow 2 1024 := by
    rw [Nat.mul_div_cancel _ unitsOfOne_pos]
    have limit : 63 < 1024 := by decide
    generalize 1024 = limit at *
    exact Nat.lt_of_le_of_lt bound (Nat.pow_lt_pow_right (by decide) limit)
  refine ⟨representable_iff.mpr ⟨below, precise⟩, ?_⟩
  rw [ofQuotient_eq_finite_iff, roundUnits_eq, one, roundPrecise_mul_two_pow]

theorem roundsTo_whole (negative : Bool) {whole : Nat} (small : whole ≤ 2 ^ 63) :
    (ofQuotient negative whole 1).RoundsTo (signed negative whole)
      (signed negative (roundPrecise whole 1)) ∧
    (ofQuotient negative whole 1).truncate? = some (signed negative (roundPrecise whole 1)) := by
  obtain ⟨representable, rounded⟩ := exists_ofQuotient_whole negative small
  have one : (unitsOfOne : ℚ) ≠ 0 := by exact_mod_cast Nat.ne_of_gt unitsOfOne_pos
  have value : (signed negative (roundPrecise whole 1 * unitsOfOne) : ℚ) / unitsOfOne =
      signed negative (roundPrecise whole 1) := by
    rw [signed_mul, Int.cast_mul, Int.cast_natCast, mul_div_cancel_right₀ _ one]
  constructor
  · have rounds := roundsTo_ofQuotient Nat.one_pos rounded
    rw [← rounded, value, Nat.cast_one, div_one] at rounds
    exact rounds
  · rw [rounded, truncate?, Nat.mul_div_cancel _ unitsOfOne_pos]

end Binary64

end Rulebook.Number
