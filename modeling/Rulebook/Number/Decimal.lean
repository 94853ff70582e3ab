import Rulebook.Number.Binary64

/-!
Decimal numbers: whole numbers of some power of ten, their digits, and the floating-point number
nearest to one.
-/

namespace Rulebook.Number

abbrev Digit := Fin 10

namespace Digit

def char (digit : Digit) : Char :=
  Char.ofNat ('0'.toNat + digit.val)

def ofChar? (char : Char) : Option Digit :=
  if inRange : '0'.toNat ≤ char.toNat ∧ char.toNat ≤ '9'.toNat then
    some ⟨char.toNat - '0'.toNat, by
      have : '0'.toNat = 48 := rfl
      have : '9'.toNat = 57 := rfl
      omega⟩
  else none

@[simp] theorem ofChar?_char (digit : Digit) : ofChar? digit.char = some digit := by
  revert digit
  decide

def split (text : List Char) : List Digit × List Char :=
  ((text.takeWhile Char.isDigit).filterMap ofChar?, text.dropWhile Char.isDigit)

def value (digits : List Digit) : Nat :=
  digits.foldl (fun value digit => 10 * value + digit.val) 0

theorem foldl_value (start : Nat) (digits : List Digit) :
    digits.foldl (fun value digit => 10 * value + digit.val) start =
      start * Nat.pow 10 digits.length + value digits := by
  induction digits generalizing start with
  | nil => simp [value]
  | cons digit digits ih =>
      have power : Nat.pow 10 (digits.length + 1) = Nat.pow 10 digits.length * 10 := rfl
      rw [value, List.foldl_cons, List.foldl_cons, ih, ih (10 * 0 + digit.val), List.length_cons]
      grind

theorem value_append (front back : List Digit) :
    value (front ++ back) = value front * Nat.pow 10 back.length + value back := by
  rw [value, List.foldl_append, foldl_value, ← value]

theorem value_cons (digit : Digit) (digits : List Digit) :
    value (digit :: digits) = digit.val * Nat.pow 10 digits.length + value digits := by
  simpa [value] using value_append [digit] digits

def ofNat (value : Nat) : List Digit :=
  go value []
where
  go (value : Nat) (less : List Digit) : List Digit :=
    if value = 0 then less
    else go (value / 10) (⟨value % 10, Nat.mod_lt _ (by decide)⟩ :: less)

theorem value_ofNat_go (number : Nat) (less : List Digit) :
    value (ofNat.go number less) = number * Nat.pow 10 less.length + value less := by
  fun_induction ofNat.go number less with
  | case1 => simp
  | case2 number less _ ih =>
      have parts := Nat.div_add_mod number 10
      have power : Nat.pow 10 (less.length + 1) = Nat.pow 10 less.length * 10 := rfl
      rw [ih, value_cons, List.length_cons]
      calc
        number / 10 * Nat.pow 10 (less.length + 1) + (number % 10 * Nat.pow 10 less.length + value less) =
            (10 * (number / 10) + number % 10) * Nat.pow 10 less.length + value less := by grind
        _ = number * Nat.pow 10 less.length + value less := by rw [parts]

@[simp] theorem value_ofNat (number : Nat) : value (ofNat number) = number := by
  simpa [ofNat, value] using value_ofNat_go number []

def last (count value : Nat) : List Digit :=
  go count value []
where
  go : Nat → Nat → List Digit → List Digit
    | 0, _, less => less
    | count + 1, value, less =>
        go count (value / 10) (⟨value % 10, Nat.mod_lt _ (by decide)⟩ :: less)

def chars (value : Nat) : List Char :=
  if value = 0 then ['0'] else (ofNat value).map char

end Digit

/-- The number `digits * 10 ^ exponent`. -/
structure Decimal where
  digits : Nat
  exponent : Int
deriving DecidableEq, Repr

namespace Decimal

/-- The nearest floating-point number, with the given sign. -/
def toBinary64 (negative : Bool) (decimal : Decimal) : Binary64 :=
  if decimal.digits = 0 then .zero negative
  -- Beyond the format the bits settle the number, and no power of ten has to be computed.
  else match decimal.exponent with
    | .ofNat exponent =>
        if 1024 ≤ decimal.digits.log2 + 3 * exponent then .infinite negative
        else .ofQuotient negative (decimal.digits * Nat.pow 10 exponent) 1
    | .negSucc exponent =>
        if decimal.digits.log2 + 1076 ≤ 3 * (exponent + 1) then .zero negative
        else .ofQuotient negative decimal.digits (Nat.pow 10 (exponent + 1))

def shorten (decimal : Decimal) : Decimal :=
  if decimal.digits ≠ 0 ∧ decimal.digits % 10 = 0 then
    shorten ⟨decimal.digits / 10, decimal.exponent + 1⟩
  else decimal
termination_by decimal.digits
decreasing_by omega

end Decimal

end Rulebook.Number
