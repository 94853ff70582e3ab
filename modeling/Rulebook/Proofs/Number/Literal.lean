import Rulebook.Number.Literal
import Rulebook.Proofs.Number.Decimal

/-!
The whole numbers that literals write: the decimal text of an integer is read as the floating-point
number nearest to it.
-/

namespace Rulebook.Number

namespace Digit

theorem digitChar_val (digit : Digit) : Nat.digitChar digit.val = digit.char := by
  revert digit
  decide

theorem map_char_ofNat_go (number : Nat) (less : List Digit) :
    (ofNat.go number less).map char =
      if number = 0 then less.map char else Nat.toDigits 10 number ++ less.map char := by
  fun_induction ofNat.go number less with
  | case1 => simp
  | case2 number less nonzero ih =>
      have digits := Nat.toDigits_eq_if (n := number) (b := 10) (by decide)
      rw [ih, if_neg nonzero, digits]
      by_cases last : number < 10
      · have none : number / 10 = 0 := by omega
        have same : number % 10 = number := by omega
        simp [last, none, same, ← digitChar_val]
      · have more : number / 10 ≠ 0 := by omega
        simp [last, more, ← digitChar_val]

theorem chars_eq_toDigits (number : Nat) : chars number = Nat.toDigits 10 number := by
  rw [chars]
  split
  next zero => simp [zero]
  next nonzero => simp [ofNat, map_char_ofNat_go, nonzero]

end Digit

theorem toList_toString_int (whole : Int) :
    (toString whole).toList =
      (if whole < 0 then ['-'] else []) ++ Digit.chars whole.natAbs := by
  rw [Digit.chars_eq_toDigits, Int.toString_eq_repr, Int.repr_eq_if]
  split
  next nonneg =>
    have same : whole.toNat = whole.natAbs := by omega
    rw [if_neg (by omega), Nat.toList_repr, same, List.nil_append]
  next negative =>
    have same : (-whole).toNat = whole.natAbs := by omega
    rw [if_pos (by omega), String.toList_append, Nat.toList_repr, same]
    rfl

namespace Literal

theorem decimal?_chars (number : Nat) : decimal? (Digit.chars number) = some ⟨number, 0⟩ := by
  obtain ⟨digit, digits, split, value⟩ := Digit.exists_split_chars number
  simp [decimal?, split, exponent?, value]

theorem lower_chars_ne (number : Nat) (word : String) (letter : ∀ digit : Digit,
    some digit.char.toLower ≠ word.toList.head?) :
    String.ofList ((Digit.chars number).map Char.toLower) ≠ word := by
  obtain ⟨digit, digits, written, -⟩ := Digit.exists_chars number
  rintro rfl
  apply letter digit
  simp [written]

theorem read?_of_splitSign {text : List Char} {negative : Bool} {number : Nat}
    (split : splitSign text = (negative, Digit.chars number)) :
    read? text = some (.ofQuotient negative number 1) := by
  have inf := lower_chars_ne number "inf" (by decide)
  have infinity := lower_chars_ne number "infinity" (by decide)
  have nan := lower_chars_ne number "nan" (by decide)
  have whole : Decimal.toBinary64 negative ⟨number, 0⟩ = .ofQuotient negative number 1 := by
    rw [Decimal.toBinary64_eq]
    simp [Decimal.factor, Decimal.divisor]
  simp [read?, split, inf, infinity, nan, decimal?_chars, whole]

theorem read?_toString (whole : Int) :
    read? (toString whole).toList = some (.ofQuotient (decide (whole < 0)) whole.natAbs 1) := by
  apply read?_of_splitSign
  rw [toList_toString_int]
  by_cases negative : whole < 0
  · simp [negative, splitSign]
  · obtain ⟨digit, digits, written, -⟩ := Digit.exists_chars whole.natAbs
    have noSign : ∀ digit : Digit, digit.char ≠ '-' ∧ digit.char ≠ '+' := by decide
    simp [negative, written, splitSign, noSign digit]

end Literal

end Rulebook.Number
