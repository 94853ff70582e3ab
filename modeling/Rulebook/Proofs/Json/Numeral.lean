import Rulebook.Json.Numeral
import Rulebook.Proofs.Json.Lexeme
import Rulebook.Proofs.Number.Scaling
import Rulebook.Proofs.Number.Shortest

/-!
Written numbers: a numeral is read back from its characters, and a whole number from its numeral. The
numeral of a shortest decimal writes no whole number; a reader that takes the nearest number reads the
floating-point number back from it, and so does the faster one if the numeral is short.
-/

namespace Rulebook.Json

open Number

namespace Numeral

def exponentChars : Option Int → List Char
  | none => []
  | some exponent => 'e' :: (if exponent < 0 then '-' else '+') :: Digit.chars exponent.natAbs

def fractionChars (fraction : List Digit) : List Char :=
  if fraction = [] then [] else '.' :: fraction.map Digit.char

theorem chars_eq (numeral : Numeral) :
    numeral.chars = (if numeral.negative then ['-'] else []) ++ (Digit.chars numeral.whole ++
      (fractionChars numeral.fraction ++ exponentChars numeral.exponent)) := by
  obtain ⟨negative, whole, fraction, exponent⟩ := numeral
  cases exponent <;> simp [chars, fractionChars, exponentChars]

theorem ends_exponentChars (exponent : Option Int) :
    ∀ char ∈ (exponentChars exponent).head?, char.isDigit = false := by
  cases exponent <;> simp [exponentChars]

theorem ends_fractionChars (fraction : List Digit) (exponent : Option Int) :
    ∀ char ∈ (fractionChars fraction ++ exponentChars exponent).head?, char.isDigit = false := by
  unfold fractionChars
  split
  · exact ends_exponentChars exponent
  · simp

theorem digits?_chars (negative : Bool) (number : Nat) :
    exponent?.digits? negative (Digit.chars number) = some (some (Binary64.signed negative number)) := by
  obtain ⟨digit, digits, split, value⟩ := Digit.exists_split_chars number
  rw [exponent?.digits?, split]
  simp only [value]

theorem exponent?_exponentChars (exponent : Option Int) :
    exponent? (exponentChars exponent) = some exponent := by
  cases exponent with
  | none => rfl
  | some exponent =>
      by_cases negative : exponent < 0
      · have value : -(exponent.natAbs : Int) = exponent := by omega
        simp only [exponentChars, exponent?, negative, if_true, true_or, digits?_chars,
          Binary64.signed, value]
      · have value : (exponent.natAbs : Int) = exponent := by omega
        simp only [exponentChars, exponent?, negative, if_true, if_false, true_or, digits?_chars,
          Binary64.signed, Bool.false_eq_true, value]

theorem fractionExponent?_chars (fraction : List Digit) (exponent : Option Int) :
    fractionExponent? (fractionChars fraction ++ exponentChars exponent) =
      some (fraction, exponent) := by
  have exponentRead := exponent?_exponentChars exponent
  cases fraction with
  | nil =>
      cases exponent with
      | none => rfl
      | some exponent =>
          simp only [fractionChars, exponentChars, if_true, List.nil_append] at exponentRead ⊢
          rw [fractionExponent?, exponentRead]
          · rfl
          · simp
  | cons digit digits =>
      have split := Digit.split_append (digit :: digits) (ends_exponentChars exponent)
      rw [fractionChars, if_neg (by simp), List.cons_append, fractionExponent?, split]
      simp [exponentRead]

theorem magnitude?_chars (numeral : Numeral) :
    magnitude? numeral.negative (Digit.chars numeral.whole ++
      (fractionChars numeral.fraction ++ exponentChars numeral.exponent)) = some numeral := by
  obtain ⟨digit, digits, written, value, alone⟩ := Digit.exists_chars numeral.whole
  have split := Digit.split_append (digit :: digits)
    (ends_fractionChars numeral.fraction numeral.exponent)
  have noZero : ¬(digit = 0 ∧ digits ≠ []) := fun zero => zero.2 (alone zero.1)
  rw [magnitude?, written, split]
  simp [noZero, fractionExponent?_chars, value]

theorem read?_chars (numeral : Numeral) : read? numeral.chars = some numeral := by
  rw [chars_eq]
  have magnitude := magnitude?_chars numeral
  by_cases negative : numeral.negative = true
  · rw [negative] at magnitude ⊢
    exact magnitude
  · obtain ⟨digit, digits, written, -⟩ := Digit.exists_chars numeral.whole
    have noSign : digit.char ≠ '-' := by
      intro sign
      have isDigit := Digit.isDigit_char digit
      rw [sign] at isDigit
      cases isDigit
    rw [Bool.not_eq_true] at negative
    rw [negative, written, List.map_cons, List.cons_append] at magnitude
    rw [if_neg (by simp [negative]), List.nil_append, written, List.map_cons, List.cons_append,
      read?, magnitude]
    simpa using noSign

theorem whole?_ofInt (whole : Int) : (ofInt whole).whole? = some whole := by
  have noZero : ¬(decide (whole < 0) = true ∧ whole.natAbs = 0) := by
    rw [decide_eq_true_iff]
    omega
  simp only [ofInt, whole?, noZero, not_false_eq_true, and_self, if_true, Binary64.signed_natAbs]

theorem negative_ofDecimal (negative : Bool) (decimal : Decimal) :
    (ofDecimal negative decimal).negative = negative := by
  simp only [ofDecimal]
  split
  · rfl
  · split
    · split <;> rfl
    · rfl

theorem whole?_ofDecimal (negative : Bool) (decimal : Decimal) :
    (ofDecimal negative decimal).whole? = none := by
  simp only [ofDecimal]
  split
  · simp [whole?]
  · split
    · split
      · simp [whole?]
      · next places _ =>
          have fraction : Digit.last (places + 1) decimal.digits ≠ [] := by
            apply List.ne_nil_of_length_pos
            rw [Digit.length_last]
            omega
          simp [whole?, fraction]
    · simp [whole?]

theorem length_ofNat_pos {number : Nat} (nonzero : number ≠ 0) :
    0 < (Digit.ofNat number).length := by
  obtain ⟨digit, digits, written, -⟩ := Digit.head?_ofNat_go nonzero []
  rw [Digit.ofNat, written]
  exact Nat.succ_pos _

theorem value_split (number places : Nat) (exponent : Int) :
    Decimal.value ⟨number / 10 ^ places * 10 ^ places + number % 10 ^ places, exponent⟩ =
      Decimal.value ⟨number, exponent⟩ := by
  rw [Nat.div_add_mod']

theorem value_decimal_ofDecimal (negative : Bool) (decimal : Decimal) :
    (ofDecimal negative decimal).decimal.value = decimal.value := by
  obtain ⟨digits, exponent⟩ := decimal
  by_cases zero : digits = 0
  · simp [ofDecimal, zero, Numeral.decimal, Decimal.value, Digit.value]
  · have length := length_ofNat_pos zero
    simp only [ofDecimal, zero, if_false]
    split
    · cases exponent with
      | ofNat exponent =>
          simp [Numeral.decimal, Decimal.value, Digit.value]
      | negSucc exponent =>
          have same : -1 + -(exponent : Int) = .negSucc exponent := by omega
          simp [Numeral.decimal, value_split, same]
    · have same : exponent + (Digit.ofNat digits).length - 1 - ((Digit.ofNat digits).length - 1 : Nat) =
          exponent := by
        omega
      simp [Numeral.decimal, value_split, same]

theorem leading_of_lt {numeral : Numeral} (fits : numeral.decimal.digits < UInt64.size) :
    numeral.leading = numeral.decimal := by
  obtain ⟨negative, whole, fraction, exponent⟩ := numeral
  have digits : whole * Nat.pow 10 fraction.length + Digit.value fraction < UInt64.size := fits
  have front : whole ≤ whole * Nat.pow 10 fraction.length :=
    Nat.le_mul_of_pos_right whole (Nat.pow_pos (by decide))
  have wholeRead := Digit.accumulate_ofNat (Nat.lt_of_le_of_lt front (by omega))
  simp [leading, decimal, wholeRead, Digit.accumulate_of_lt digits]

/-- The reader that always takes the nearest number. -/
def nearest? (numeral : Numeral) : Option Binary64 :=
  let number := numeral.decimal.toBinary64 numeral.negative
  if number.isFinite then some number else none

/-- The digits and the power of ten of a numeral are numbers of the format. -/
def IsShort (numeral : Numeral) : Prop :=
  numeral.decimal.digits < 2 ^ 53 ∧ numeral.decimal.exponent.natAbs ≤ 22

instance : DecidablePred IsShort := fun _ => inferInstanceAs (Decidable (_ ∧ _))

/-- A short numeral is read as the nearest number. -/
theorem toBinary64?_eq_nearest? {numeral : Numeral} (short : numeral.IsShort) :
    numeral.toBinary64? = numeral.nearest? := by
  obtain ⟨digits, power⟩ := short
  have fits : 2 ^ 53 ≤ UInt64.size := by decide
  rw [toBinary64?, leading_of_lt (Nat.lt_of_lt_of_le digits fits),
    Decimal.scaled_eq_toBinary64 _ (hasPrecision_of_lt digits) power, nearest?]

-- A longer one need not be.
example :
    toBinary64? ⟨false, 9, [8, 9, 9, 9, 9, 9, 9, 9, 9, 9, 9, 9, 9, 9, 9], none⟩ =
        toBinary64? ⟨false, 9, [9], none⟩ ∧
      nearest? ⟨false, 9, [8, 9, 9, 9, 9, 9, 9, 9, 9, 9, 9, 9, 9, 9, 9], none⟩ ≠
        nearest? ⟨false, 9, [9], none⟩ := by
  decide +kernel

end Numeral

/-- Whether a number is read back from the way it is written, if it is finite. -/
def Rereads (readFloat : FloatReader) : Binary64 → Prop
  | .finite negative units representable =>
      readFloat (.ofDecimal negative (Binary64.shortest units)) =
        some (.finite negative units representable)
  | _ => True

instance (readFloat : FloatReader) (number : Binary64) : Decidable (Rereads readFloat number) :=
  match number with
  | .finite .. => inferInstanceAs (Decidable (_ = _))
  | .nan | .infinite _ => inferInstanceAs (Decidable True)

theorem rereads_nearest (number : Binary64) : Rereads Numeral.nearest? number := by
  cases number with
  | nan => trivial
  | infinite negative => trivial
  | finite negative units representable =>
      rw [Rereads, Numeral.nearest?, Numeral.negative_ofDecimal,
        Decimal.toBinary64_congr (Numeral.value_decimal_ofDecimal _ _),
        Binary64.toBinary64_shortest representable]
      rfl

theorem rereads_of_isShort {negative : Bool} {units : Nat} {representable : Representable units}
    (short : (Numeral.ofDecimal negative (Binary64.shortest units)).IsShort) :
    Rereads Numeral.toBinary64? (.finite negative units representable) := by
  rw [Rereads, Numeral.toBinary64?_eq_nearest? short]
  exact rereads_nearest (.finite negative units representable)

end Rulebook.Json
