import Rulebook.Proofs.Comparison
import Rulebook.Proofs.Number.Literal
import Rulebook.Proofs.Number.Nearest

/-!
How an integer compares with a literal: as with the whole part of the number that the literal writes,
which for the text of an integer is that integer rounded to a floating-point number.
-/

namespace Rulebook

open Number

theorem dropEdges_toString (edge : Char → Bool) (sign : edge '-' = false)
    (digits : ∀ digit : Digit, edge digit.char = false) (whole : Int) :
    Text.dropEdges edge (toString whole).toList = (toString whole).toList := by
  apply Text.dropEdges_eq_self
  intro char member
  obtain ⟨first, later, written, -⟩ := Digit.exists_chars whole.natAbs
  rw [toList_toString_int, written, List.mem_append, List.mem_map] at member
  rcases member with isSign | ⟨digit, -, rfl⟩
  · split at isSign
    · rw [List.mem_singleton.mp isSign, sign]
    · cases isSign
  · exact digits digit

theorem literalNumber?_toString (whole : Int) :
    literalNumber? (toString whole) =
      some (.ofQuotient (decide (whole < 0)) whole.natAbs 1) := by
  have single := dropEdges_toString (· == '\'') (by decide) (by decide) whole
  have double := dropEdges_toString (· == '"') (by decide) (by decide) whole
  have blank := dropEdges_toString Text.isBlank (by decide) (by decide) whole
  rw [literalNumber?, unquote, single, double, String.toList_ofList, blank, Literal.read?_toString]

theorem orderToWhole_eq (number : Int64) (whole : Int) :
    orderToWhole number whole = compare number.toInt whole := by
  have lower := number.le_toInt
  have upper := number.toInt_lt
  rw [orderToWhole, Int64.toInt_maxValue, Int64.toInt_minValue]
  split
  next above => exact (Int.compare_eq_lt.mpr (by omega)).symm
  next notAbove =>
    split
    next below => exact (Int.compare_eq_gt.mpr (by omega)).symm
    next notBelow =>
      have same : (Int64.ofInt whole).toInt = whole :=
        Int64.toInt_ofInt_of_le (by omega) (by omega)
      simp [Ord.compare, compareOfLessAndEq, Int64.lt_iff_toInt_lt, ← Int64.toInt_inj, same]

namespace Relation

theorem compare_integer_of_truncate? {relation : Relation} {actual : Int64} {field literal : String}
    {number : Binary64} {whole : Int} (read : literalNumber? literal = some number)
    (truncated : number.truncate? = some whole) :
    relation.compare (.integer actual) field literal =
      .ok (decide (relation.Relates actual.toInt whole)) := by
  rw [← holds_compare, ← orderToWhole_eq, Relation.compare, Value.orderToLiteral,
    readNumber_eq_ok_iff.mpr read, Collection.ok_bind, truncated]
  rfl

/-- An integer relates to a finite literal as to its whole part, however large, and to no literal
that is not finite. -/
theorem compare_integer (relation : Relation) (actual : Int64) (field : String) {literal : String}
    {number : Binary64} (read : literalNumber? literal = some number) :
    (∀ value, number.value? = some value → relation.compare (.integer actual) field literal =
      .ok (decide (relation.Relates actual.toInt (wholePart value)))) ∧
    (number.isFinite = false → relation.compare (.integer actual) field literal =
      .error (.notNumeric field (unquote literal))) := by
  constructor
  · intro value isValue
    apply compare_integer_of_truncate? read
    rw [Binary64.truncate?_eq, isValue, Option.map_some]
  · intro infinite
    exact compare_eq_error_iff.mpr ⟨.inr ⟨number, read, infinite⟩, rfl⟩

theorem compare_integer_beyond :
    (∃ number, literalNumber? "'9223372036854775808'" = some number ∧
      number.value? = some 9223372036854775808 ∧
      less.compare (.integer Int64.maxValue) "n" "'9223372036854775808'" = .ok true) ∧
    ∃ number, literalNumber? "1e400" = some number ∧ number.isFinite = false ∧
      less.compare (.integer 1) "n" "1e400" = .error (.notNumeric "n" "1e400") := by
  constructor
  · have read : literalNumber? "'9223372036854775808'" =
        some (.ofQuotient false 9223372036854775808 1) := by decide +kernel
    have value : (Binary64.ofQuotient false 9223372036854775808 1).value? =
        some 9223372036854775808 := by decide +kernel
    refine ⟨_, read, value, ?_⟩
    rw [(compare_integer less Int64.maxValue "n" read).1 _ value]
    decide +kernel
  · have read : literalNumber? "1e400" = some (.infinite false) := by decide +kernel
    exact ⟨_, read, rfl, (compare_integer less 1 "n" read).2 rfl⟩

/-- An integer relates to the text of another one as to that one rounded to a floating-point number.
-/
theorem compare_integer_toString (whole : Int64) :
    ∃ (number : Binary64) (rounded : Int), number.RoundsTo whole.toInt rounded ∧
      (HasPrecision whole.toInt.natAbs → rounded = whole.toInt) ∧
      ∀ (relation : Relation) (actual : Int64) (field : String),
        relation.compare (.integer actual) field (toString whole.toInt) =
          .ok (decide (relation.Relates actual.toInt rounded)) ∧
        relation.compare (.integer actual) field ("'" ++ toString whole.toInt ++ "'") =
          .ok (decide (relation.Relates actual.toInt rounded)) := by
  have lower := whole.le_toInt
  have upper := whole.toInt_lt
  have small : whole.toInt.natAbs ≤ 2 ^ 63 := by omega
  obtain ⟨rounds, truncated⟩ := Binary64.roundsTo_whole (decide (whole.toInt < 0)) small
  rw [Binary64.signed_natAbs] at rounds
  refine ⟨_, _, rounds, ?_, ?_⟩
  · intro precise
    have kept := Binary64.roundPrecise_of_hasPrecision precise Nat.one_pos
    rw [Nat.mul_one] at kept
    rw [kept, Binary64.signed_natAbs]
  · intro relation actual field
    have read := literalNumber?_toString whole.toInt
    have quoted := (literalNumber?_surround (toString whole.toInt)).trans read
    exact ⟨compare_integer_of_truncate? read truncated, compare_integer_of_truncate? quoted truncated⟩

theorem compare_integer_toString_precise :
    HasPrecision (9007199254740992 : Int64).toInt.natAbs ∧
      greater.compare (.integer 9007199254740993) "n" (toString (9007199254740992 : Int64).toInt) =
        .ok true := by
  have precise : HasPrecision (9007199254740992 : Int64).toInt.natAbs := ⟨1, 53, by decide, by decide⟩
  obtain ⟨_, rounded, -, kept, compared⟩ := compare_integer_toString 9007199254740992
  refine ⟨precise, ?_⟩
  rw [(compared greater 9007199254740993 "n").1, kept precise]
  rfl

/-- The literal 9007199254740993 is rounded, and equal to an integer that is one less. -/
theorem compare_integer_toString_rounded :
    equal.compare (.integer 9007199254740992) "n" (toString (9007199254740993 : Int64).toInt) =
      .ok true ∧
    ¬equal.Relates (9007199254740992 : Int64).toInt (9007199254740993 : Int64).toInt := by
  have read := literalNumber?_toString (9007199254740993 : Int64).toInt
  have truncated : (Binary64.ofQuotient (decide ((9007199254740993 : Int64).toInt < 0))
      (9007199254740993 : Int64).toInt.natAbs 1).truncate? = some 9007199254740992 := by
    decide +kernel
  refine ⟨?_, by decide⟩
  rw [compare_integer_of_truncate? read truncated]
  rfl

end Relation

end Rulebook
