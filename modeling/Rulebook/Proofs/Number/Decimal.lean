import Mathlib.Algebra.Order.Field.Rat
import Mathlib.Tactic.FieldSimp
import Mathlib.Tactic.NormNum
import Rulebook.Number.Decimal
import Rulebook.Proofs.Number.Rounding

/-!
Decimal numbers: their digits, and the floating-point number nearest to one, which depends on its
value alone and is the number itself where the format has it.
-/

namespace Rulebook.Number

namespace Digit

@[simp] theorem isDigit_char (digit : Digit) : digit.char.isDigit = true := by
  revert digit
  decide

theorem split_append (digits : List Digit) {rest : List Char}
    (ends : ∀ char ∈ rest.head?, char.isDigit = false) :
    split (digits.map char ++ rest) = (digits, rest) := by
  have stops : rest.takeWhile Char.isDigit = [] ∧ rest.dropWhile Char.isDigit = rest := by
    cases rest with
    | nil => simp
    | cons first later => simp [ends first rfl]
  have digitsOnly : (digits.map char).filterMap ofChar? = digits := by
    rw [List.filterMap_map]
    simp
  have isDigit : ∀ written ∈ digits.map char, written.isDigit = true := by
    simp
  rw [split, List.takeWhile_append_of_pos isDigit, List.dropWhile_append_of_pos isDigit, stops.1,
    stops.2, List.append_nil, digitsOnly]

theorem length_last_go (count number : Nat) (less : List Digit) :
    (last.go count number less).length = count + less.length := by
  induction count generalizing number less with
  | zero => simp [last.go]
  | succ count ih =>
      rw [last.go, ih, List.length_cons]
      omega

@[simp] theorem length_last (count number : Nat) : (last count number).length = count := by
  simp [last, length_last_go]

theorem value_last_go (count number : Nat) (less : List Digit) :
    value (last.go count number less) =
      number % 10 ^ count * 10 ^ less.length + value less := by
  induction count generalizing number less with
  | zero => simp [last.go, Nat.mod_one]
  | succ count ih =>
      have parts : number % 10 ^ (count + 1) = number % 10 + 10 * (number / 10 % 10 ^ count) := by
        rw [Nat.pow_succ', Nat.mod_mul]
      rw [last.go, ih, value_cons, List.length_cons, parts, Nat.pow_succ, Nat.pow_eq]
      ring

@[simp] theorem value_last (count number : Nat) : value (last count number) = number % 10 ^ count := by
  rw [last, value_last_go]
  simp [value]

theorem head?_ofNat_go {number : Nat} (positive : number ≠ 0) (less : List Digit) :
    ∃ digit digits, ofNat.go number less = digit :: digits ∧ digit ≠ 0 := by
  fun_induction ofNat.go number less with
  | case1 => exact absurd rfl positive
  | case2 number less _ ih =>
      by_cases more : number / 10 = 0
      · rw [more, ofNat.go, if_pos rfl]
        refine ⟨_, _, rfl, ?_⟩
        intro zero
        have same : number % 10 = 0 := congrArg Fin.val zero
        omega
      · exact ih more

theorem exists_chars (number : Nat) :
    ∃ digit digits, chars number = (digit :: digits).map char ∧
      value (digit :: digits) = number ∧ (digit = 0 → digits = []) := by
  by_cases zero : number = 0
  · subst zero
    exact ⟨0, [], rfl, rfl, fun _ => rfl⟩
  · obtain ⟨digit, digits, written, nonzero⟩ := head?_ofNat_go zero []
    refine ⟨digit, digits, ?_, ?_, fun first => absurd first nonzero⟩
    · rw [chars, if_neg zero, ofNat, written]
    · rw [← written]
      exact value_ofNat number

theorem exists_split_chars (number : Nat) :
    ∃ digit digits, split (chars number) = (digit :: digits, []) ∧
      value (digit :: digits) = number := by
  obtain ⟨digit, digits, written, value, -⟩ := exists_chars number
  have whole : split ((digit :: digits).map char ++ []) = (digit :: digits, []) :=
    split_append (digit :: digits) (by simp)
  rw [List.append_nil, ← written] at whole
  exact ⟨digit, digits, whole, value⟩

end Digit

namespace Binary64

@[simp] theorem signed_false (units : Nat) : signed false units = units := rfl

@[simp] theorem signed_true (units : Nat) : signed true units = -units := rfl

theorem signed_natAbs (whole : Int) : signed (decide (whole < 0)) whole.natAbs = whole := by
  by_cases negative : whole < 0
  · rw [decide_eq_true negative, signed_true]
    omega
  · rw [decide_eq_false negative, signed_false]
    omega

theorem exists_unitsOfOne : ∃ bits, bits = 1074 ∧ unitsOfOne = 2 ^ bits := by
  refine ⟨1074, rfl, ?_⟩
  unfold unitsOfOne
  generalize 1074 = bits
  exact Nat.pow_eq

theorem unitsOfOne_pos : 0 < unitsOfOne := by
  obtain ⟨bits, -, one⟩ := exists_unitsOfOne
  rw [one]
  exact Nat.two_pow_pos bits

theorem ofQuotient_congr (negative : Bool) {dividend divisor dividend' divisor' : Nat}
    (positive : 0 < divisor) (positive' : 0 < divisor')
    (same : dividend * divisor' = dividend' * divisor) :
    ofQuotient negative dividend divisor = ofQuotient negative dividend' divisor' := by
  have rounded : roundUnits dividend divisor = roundUnits dividend' divisor' := by
    rw [roundUnits_eq, roundUnits_eq]
    apply roundPrecise_congr positive positive'
    rw [Nat.mul_right_comm, same, Nat.mul_right_comm]
  simp only [ofQuotient, rounded]

theorem ofQuotient_eq_finite_iff {negative : Bool} {dividend divisor units : Nat}
    {representable : Representable units} :
    ofQuotient negative dividend divisor = finite negative units representable ↔
      roundUnits dividend divisor = units := by
  constructor
  · intro rounded
    rw [ofQuotient] at rounded
    split at rounded
    · exact (finite.inj rounded).2
    · cases rounded
  · rintro rfl
    rw [ofQuotient, dif_pos representable]

theorem ofQuotient_units {negative : Bool} {units : Nat} (representable : Representable units) :
    ofQuotient negative units unitsOfOne = finite negative units representable := by
  rw [ofQuotient_eq_finite_iff, roundUnits_eq]
  exact roundPrecise_of_hasPrecision (representable_iff.mp representable).2 unitsOfOne_pos

theorem ofQuotient_of_large {negative : Bool} {dividend divisor bits : Nat}
    (positive : 0 < divisor) (beyond : 1024 ≤ bits) (large : 2 ^ bits * divisor ≤ dividend) :
    ofQuotient negative dividend divisor = infinite negative := by
  have unrepresentable : ¬Representable (roundUnits dividend divisor) := by
    rintro ⟨below, -⟩
    obtain ⟨exponent, -, one⟩ := exists_unitsOfOne
    generalize 1024 = limit at below beyond
    have reached : 2 ^ bits * unitsOfOne ≤ roundUnits dividend divisor := by
      rw [roundUnits_eq, one, ← Nat.pow_add]
      apply two_pow_le_roundPrecise
      rw [Nat.le_div_iff_mul_le positive, Nat.pow_add, Nat.mul_right_comm]
      exact Nat.mul_le_mul_right _ large
    rw [← Nat.le_div_iff_mul_le unitsOfOne_pos] at reached
    exact Nat.not_le_of_lt (Nat.lt_of_lt_of_le below (Nat.pow_le_pow_right (by decide) beyond))
      reached
  rw [ofQuotient, dif_neg unrepresentable]

theorem ofQuotient_of_small {negative : Bool} {dividend divisor : Nat}
    (small : 2 * (dividend * unitsOfOne) < divisor) :
    ofQuotient negative dividend divisor = zero negative := by
  rw [zero, ofQuotient_eq_finite_iff, roundUnits_eq]
  exact roundPrecise_eq_zero small

end Binary64

namespace Decimal

def value (decimal : Decimal) : ℚ :=
  decimal.digits * 10 ^ decimal.exponent

def factor (decimal : Decimal) : Nat := 10 ^ decimal.exponent.toNat

def divisor (decimal : Decimal) : Nat := 10 ^ (-decimal.exponent).toNat

theorem divisor_pos (decimal : Decimal) : 0 < decimal.divisor :=
  Nat.pow_pos (by decide)

theorem factor_ofNat (digits exponent : Nat) : factor ⟨digits, .ofNat exponent⟩ = 10 ^ exponent := by
  simp [factor]

theorem divisor_ofNat (digits exponent : Nat) : divisor ⟨digits, .ofNat exponent⟩ = 1 := by
  simp [divisor]

theorem factor_negSucc (digits exponent : Nat) : factor ⟨digits, .negSucc exponent⟩ = 1 := by
  simp [factor]

theorem divisor_negSucc (digits exponent : Nat) :
    divisor ⟨digits, .negSucc exponent⟩ = 10 ^ (exponent + 1) := by
  simp [divisor]

theorem value_eq (decimal : Decimal) :
    decimal.value = (decimal.digits * decimal.factor : Nat) / (decimal.divisor : Nat) := by
  obtain ⟨digits, exponent⟩ := decimal
  cases exponent with
  | ofNat exponent =>
      rw [factor_ofNat, divisor_ofNat]
      simp [value]
  | negSucc exponent =>
      rw [factor_negSucc, divisor_negSucc]
      simp [value, zpow_negSucc, div_eq_mul_inv]

theorem two_pow_le_mul_ten_pow {digits : Nat} (exponent : Nat) (nonzero : digits ≠ 0) :
    2 ^ (digits.log2 + 3 * exponent) ≤ digits * 10 ^ exponent := by
  calc
    2 ^ (digits.log2 + 3 * exponent) = 2 ^ digits.log2 * 8 ^ exponent := by
      rw [Nat.pow_add, Nat.pow_mul]
    _ ≤ digits * 10 ^ exponent :=
      Nat.mul_le_mul (Nat.log2_self_le nonzero) (Nat.pow_le_pow_left (by decide) exponent)

theorem mul_two_pow_lt_ten_pow {digits exponent bits : Nat}
    (small : digits.log2 + bits + 1 ≤ 3 * exponent) : digits * 2 ^ bits < 10 ^ exponent := by
  calc
    digits * 2 ^ bits < 2 ^ (digits.log2 + 1) * 2 ^ bits :=
      Nat.mul_lt_mul_of_pos_right Nat.lt_log2_self (Nat.two_pow_pos bits)
    _ = 2 ^ (digits.log2 + bits + 1) := by
      rw [← Nat.pow_add]
      congr 1
      omega
    _ ≤ 2 ^ (3 * exponent) := Nat.pow_le_pow_right (by decide) small
    _ = 8 ^ exponent := by rw [Nat.pow_mul]
    _ ≤ 10 ^ exponent := Nat.pow_le_pow_left (by decide) exponent

/-- A decimal is read as the nearest number, however large or small it is. -/
theorem toBinary64_eq (negative : Bool) (decimal : Decimal) :
    decimal.toBinary64 negative =
      .ofQuotient negative (decimal.digits * decimal.factor) decimal.divisor := by
  obtain ⟨digits, exponent⟩ := decimal
  by_cases zero : digits = 0
  · have small : 2 * (digits * factor ⟨digits, exponent⟩ * unitsOfOne) <
        divisor ⟨digits, exponent⟩ := by
      rw [zero, Nat.zero_mul, Nat.zero_mul]
      exact divisor_pos _
    rw [Binary64.ofQuotient_of_small small, toBinary64, if_pos zero]
  · cases exponent with
    | ofNat exponent =>
        rw [factor_ofNat, divisor_ofNat]
        simp only [toBinary64, zero, if_false]
        split
        next beyond =>
          have large := two_pow_le_mul_ten_pow exponent zero
          rw [← Nat.mul_one (2 ^ _)] at large
          rw [Binary64.ofQuotient_of_large Nat.one_pos beyond large]
        next => rfl
    | negSucc exponent =>
        rw [factor_negSucc, divisor_negSucc, Nat.mul_one]
        simp only [toBinary64, zero, if_false]
        split
        next below =>
          have small : 2 * (digits * unitsOfOne) < 10 ^ (exponent + 1) := by
            obtain ⟨bits, known, one⟩ := Binary64.exists_unitsOfOne
            have twice : 2 * (digits * 2 ^ bits) = digits * 2 ^ (bits + 1) := by ring
            rw [one, twice]
            exact mul_two_pow_lt_ten_pow (by omega)
          rw [Binary64.ofQuotient_of_small small]
        next => rfl

theorem toBinary64_congr {decimal other : Decimal} (same : decimal.value = other.value)
    (negative : Bool) : decimal.toBinary64 negative = other.toBinary64 negative := by
  have positive : (decimal.divisor : ℚ) ≠ 0 := by
    exact_mod_cast Nat.ne_of_gt decimal.divisor_pos
  have positive' : (other.divisor : ℚ) ≠ 0 := by
    exact_mod_cast Nat.ne_of_gt other.divisor_pos
  rw [value_eq, value_eq, div_eq_div_iff positive positive'] at same
  rw [toBinary64_eq, toBinary64_eq]
  exact Binary64.ofQuotient_congr negative decimal.divisor_pos other.divisor_pos
    (by exact_mod_cast same)

theorem toBinary64_of_positive {decimal : Decimal} {units : Nat}
    {representable : Representable units}
    (read : decimal.toBinary64 false = .finite false units representable) (negative : Bool) :
    decimal.toBinary64 negative = .finite negative units representable := by
  rw [toBinary64_eq, Binary64.ofQuotient_eq_finite_iff] at read ⊢
  exact read

theorem toBinary64_of_value {decimal : Decimal} {units : Nat} (negative : Bool)
    (representable : Representable units) (same : decimal.value = units / unitsOfOne) :
    decimal.toBinary64 negative = .finite negative units representable := by
  have positive : (decimal.divisor : ℚ) ≠ 0 := by
    exact_mod_cast Nat.ne_of_gt decimal.divisor_pos
  have positive' : (unitsOfOne : ℚ) ≠ 0 := by
    exact_mod_cast Nat.ne_of_gt Binary64.unitsOfOne_pos
  rw [value_eq, div_eq_div_iff positive positive'] at same
  rw [toBinary64_eq, ← Binary64.ofQuotient_units representable]
  exact Binary64.ofQuotient_congr negative decimal.divisor_pos Binary64.unitsOfOne_pos
    (by exact_mod_cast same)

theorem value_shorten (decimal : Decimal) : decimal.shorten.value = decimal.value := by
  fun_induction shorten decimal with
  | case1 decimal longer ih =>
      have digits : (decimal.digits : ℚ) = 10 * (decimal.digits / 10 : Nat) := by
        exact_mod_cast show decimal.digits = 10 * (decimal.digits / 10) by omega
      rw [ih, value, value, digits, zpow_add₀ (by norm_num)]
      ring
  | case2 => rfl

end Decimal

end Rulebook.Number
