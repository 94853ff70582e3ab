import Rulebook.Number.Scaling
import Rulebook.Proofs.Number.Decimal

/-!
Where a decimal that is read in the format itself is read as the nearest number: if its digits fit
into a word, and they and the power of ten are numbers of the format, only the last step rounds.
-/

namespace Rulebook.Number

theorem Digit.accumulate_of_lt {start : Nat} {digits : List Digit}
    (fits : start * Nat.pow 10 digits.length + value digits < UInt64.size) :
    accumulate start digits = (start * Nat.pow 10 digits.length + value digits, []) := by
  induction digits generalizing start with
  | nil => simp [accumulate, value]
  | cons digit digits ih =>
      have more : start * Nat.pow 10 (digit :: digits).length + value (digit :: digits) =
          (10 * start + digit.val) * Nat.pow 10 digits.length + value digits := by
        rw [value_cons, List.length_cons, Nat.pow_eq, Nat.pow_eq, Nat.pow_succ]
        ring
      have least : 10 * start + digit.val ≤
          (10 * start + digit.val) * Nat.pow 10 digits.length :=
        Nat.le_mul_of_pos_right _ (Nat.pow_pos (by decide))
      rw [more] at fits ⊢
      rw [accumulate, if_pos (by omega), ih fits]

theorem Digit.accumulate_ofNat {number : Nat} (fits : number < UInt64.size) :
    accumulate 0 (ofNat number) = (number, []) := by
  have written : 0 * Nat.pow 10 (ofNat number).length + value (ofNat number) = number := by
    rw [Nat.zero_mul, Nat.zero_add, value_ofNat]
  have read := accumulate_of_lt (written.trans_lt fits)
  rwa [written] at read

namespace Binary64

theorem roundUnits_whole {whole : Nat} (precise : HasPrecision whole) :
    roundUnits whole 1 = whole * unitsOfOne := by
  obtain ⟨bits, -, one⟩ := exists_unitsOfOne
  have scaled : HasPrecision (whole * unitsOfOne) := by
    rw [one, hasPrecision_mul_two_pow_iff]
    exact precise
  have kept := roundPrecise_of_hasPrecision scaled Nat.one_pos
  rwa [Nat.mul_one] at kept

theorem tenPower_eq {exponent : Nat} (small : exponent ≤ 22) :
    tenPower exponent = 10 ^ exponent * unitsOfOne := by
  refine roundUnits_whole ⟨5 ^ exponent, exponent, ?_, ?_⟩
  · calc
      5 ^ exponent ≤ 5 ^ 22 := Nat.pow_le_pow_right (by decide) small
      _ < 2 ^ 53 := by decide
  · rw [← Nat.mul_pow]
    rfl

end Binary64

theorem Decimal.scaled_ofNat (negative : Bool) (digits exponent : Nat) :
    scaled negative ⟨digits, .ofNat exponent⟩ =
      .timesTenPower negative (Binary64.roundUnits digits 1) exponent := rfl

theorem Decimal.scaled_negSucc (negative : Bool) (digits exponent : Nat) :
    scaled negative ⟨digits, .negSucc exponent⟩ =
      .overTenPower negative (Binary64.roundUnits digits 1) (exponent + 1) := rfl

/-- A short decimal is rounded once, to the nearest number. -/
theorem Decimal.scaled_eq_toBinary64 (negative : Bool) {decimal : Decimal}
    (precise : HasPrecision decimal.digits) (small : decimal.exponent.natAbs ≤ 22) :
    decimal.scaled negative = decimal.toBinary64 negative := by
  have one := Binary64.unitsOfOne_pos
  obtain ⟨digits, exponent⟩ := decimal
  have digitsKept : Binary64.roundUnits digits 1 = digits * unitsOfOne :=
    Binary64.roundUnits_whole precise
  rw [toBinary64_eq]
  cases exponent with
  | ofNat exponent =>
      have power : exponent ≤ 22 := small
      have inTable : exponent ≤ Binary64.largestPower := Nat.le_trans power (by decide)
      rw [factor_ofNat, divisor_ofNat, scaled_ofNat, Binary64.timesTenPower, if_pos inTable,
        digitsKept, Binary64.tenPower_eq power]
      apply Binary64.ofQuotient_congr negative (Nat.mul_pos one one) Nat.one_pos
      ring
  | negSucc exponent =>
      have power : exponent + 1 ≤ 22 := small
      have inTable : exponent + 1 ≤ Binary64.largestPower := Nat.le_trans power (by decide)
      rw [factor_negSucc, divisor_negSucc, scaled_negSucc, Binary64.overTenPower, if_pos inTable,
        digitsKept, Binary64.tenPower_eq power]
      apply Binary64.ofQuotient_congr negative (Nat.mul_pos (Nat.pow_pos (by decide)) one)
        (Nat.pow_pos (by decide))
      ring

end Rulebook.Number
