import Rulebook.Proofs.Comparison.Integer

/-!
Whole numbers as floating-point numbers: they compare with each other and with whole literals as the
integers that they are, so it makes no difference whether a field holds an integer or the equal
floating-point number.
-/

namespace Rulebook

open Number

namespace Number.Binary64

def ofInt (whole : Int) : Binary64 :=
  ofQuotient (decide (whole < 0)) whole.natAbs 1

theorem value?_ofInt {whole : Int} (small : whole.natAbs ≤ 2 ^ 63)
    (isNumber : ∃ number : Binary64, number.value? = some (whole : ℚ)) :
    (ofInt whole).value? = some (whole : ℚ) := by
  obtain ⟨number, isWhole⟩ := isNumber
  obtain ⟨rounds, -⟩ := roundsTo_whole (decide (whole < 0)) small
  rw [signed_natAbs] at rounds
  -- The integer itself is a number of the format, and no other one is as near to it.
  have near := rounds.nearest number whole isWhole
  rw [sub_self, abs_zero] at near
  rw [ofInt, rounds.value, sub_eq_zero.mp (abs_nonpos_iff.mp near)]

theorem exists_units_of_whole {number : Binary64} {whole : Int}
    (isWhole : number.value? = some (whole : ℚ)) :
    ∃ negative units representable, number = finite negative units representable ∧
      signed negative units = whole * unitsOfOne := by
  cases number with
  | nan => cases isWhole
  | infinite negative => cases isWhole
  | finite negative units representable =>
      have one : (unitsOfOne : ℚ) ≠ 0 := by exact_mod_cast Nat.ne_of_gt unitsOfOne_pos
      have counted := (div_eq_iff one).mp (Option.some.inj isWhole)
      exact ⟨negative, units, representable, rfl, by exact_mod_cast counted⟩

theorem compare_mul {factor : Int} (positive : 0 < factor) (left right : Int) :
    compare (left * factor) (right * factor) = compare left right := by
  simp only [Ord.compare, compareOfLessAndEq, Int.mul_lt_mul_right positive,
    Int.mul_eq_mul_right_iff positive.ne']

theorem order?_of_whole {number other : Binary64} {left right : Int}
    (isLeft : number.value? = some (left : ℚ)) (isRight : other.value? = some (right : ℚ)) :
    number.order? other = some (compare left right) := by
  obtain ⟨_, _, _, rfl, leftUnits⟩ := exists_units_of_whole isLeft
  obtain ⟨_, _, _, rfl, rightUnits⟩ := exists_units_of_whole isRight
  have positive : 0 < (unitsOfOne : Int) := by exact_mod_cast unitsOfOne_pos
  rw [order?, leftUnits, rightUnits, compare_mul positive]

end Number.Binary64

theorem wholePart_intCast (whole : Int) : wholePart whole = whole := by
  rw [wholePart, Int.floor_intCast, Int.ceil_intCast, ite_self]

namespace Relation

variable {field literal : String} {number : Binary64} {whole : Int}

theorem compare_float_of_whole {relation : Relation} {actual : Binary64} {held : Int}
    (isHeld : actual.value? = some (held : ℚ)) (read : literalNumber? literal = some number)
    (isWhole : number.value? = some (whole : ℚ)) :
    relation.compare (.float actual) field literal =
      .ok (decide (relation.Relates held whole)) := by
  rw [← holds_compare, ← Binary64.order?_of_whole isHeld isWhole, Relation.compare,
    Value.orderToLiteral, readNumber_eq_ok_iff.mpr read, Collection.ok_bind]
  rfl

/-- An integer that is a floating-point number relates to a whole literal as that number does. -/
theorem compare_integer_eq_float (relation : Relation) {actual : Int64} (field : String)
    (isFloat : ∃ float : Binary64, float.value? = some (actual.toInt : ℚ))
    (read : literalNumber? literal = some number) (isWhole : number.value? = some (whole : ℚ)) :
    relation.compare (.integer actual) field literal =
        relation.compare (.float (.ofInt actual.toInt)) field literal ∧
      relation.compare (.float (.ofInt actual.toInt)) field literal =
        .ok (decide (relation.Relates actual.toInt whole)) := by
  have lower := actual.le_toInt
  have upper := actual.toInt_lt
  have truncated : number.truncate? = some whole := by
    rw [Binary64.truncate?_eq, isWhole, Option.map_some, wholePart_intCast]
  have asInteger : relation.compare (.integer actual) field literal =
      .ok (decide (relation.Relates actual.toInt whole)) := compare_integer_of_truncate? read truncated
  have asFloat : relation.compare (.float (.ofInt actual.toInt)) field literal =
      .ok (decide (relation.Relates actual.toInt whole)) :=
    compare_float_of_whole (Binary64.value?_ofInt (by omega) isFloat) read isWhole
  exact ⟨asInteger.trans asFloat.symm, asFloat⟩

theorem compare_integer_eq_float_beyond :
    (greater.compare (.integer Int64.minValue) "n" "-1e19" =
        greater.compare (.float (.ofInt Int64.minValue.toInt)) "n" "-1e19" ∧
      greater.compare (.float (.ofInt Int64.minValue.toInt)) "n" "-1e19" = .ok true) ∧
    equal.compare (.integer 0) "n" "'-0'" = equal.compare (.float (.ofInt 0)) "n" "'-0'" ∧
      equal.compare (.float (.ofInt 0)) "n" "'-0'" = .ok true := by
  constructor
  · have isFloat : (Binary64.ofInt Int64.minValue.toInt).value? = some (Int64.minValue.toInt : ℚ) := by
      decide +kernel
    have read : literalNumber? "-1e19" = some (.ofInt (-10000000000000000000)) := by decide +kernel
    have isWhole : (Binary64.ofInt (-10000000000000000000)).value? =
        some ((-10000000000000000000 : Int) : ℚ) := by decide +kernel
    exact compare_integer_eq_float greater "n" ⟨_, isFloat⟩ read isWhole
  · have isFloat : (Binary64.zero true).value? = some ((0 : Int64).toInt : ℚ) := by decide +kernel
    have read : literalNumber? "'-0'" = some (.zero true) := by decide +kernel
    exact compare_integer_eq_float equal "n" ⟨_, isFloat⟩ read isFloat

end Relation

end Rulebook
