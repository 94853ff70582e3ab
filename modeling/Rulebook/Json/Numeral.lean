import Rulebook.Json.Basic
import Rulebook.Number.Scaling
import Rulebook.Number.Shortest

/-!
Numbers as JSON writes them. A whole number is written without a point and a floating-point number
always with a point or an exponent, so reading can tell the two apart.
-/

namespace Rulebook.Json

open Number

/-- A way to read numerals as floating-point numbers, which fails for those beyond the format. -/
abbrev FloatReader := Numeral → Option Binary64

namespace Numeral

def exponent? : List Char → Option (Option Int)
  | [] => some none
  | mark :: text =>
      if mark = 'e' ∨ mark = 'E' then
        match text with
        | '-' :: text => digits? true text
        | '+' :: text => digits? false text
        | text => digits? false text
      else none
where
  digits? (negative : Bool) (text : List Char) : Option (Option Int) :=
    match Digit.split text with
    | (digit :: digits, []) => some (some (Binary64.signed negative (Digit.value (digit :: digits))))
    | _ => none

def fractionExponent? : List Char → Option (List Digit × Option Int)
  | '.' :: text =>
      match Digit.split text with
      | ([], _) => none
      | (fraction, text) => (exponent? text).map fun exponent => (fraction, exponent)
  | text => (exponent? text).map fun exponent => ([], exponent)

def magnitude? (negative : Bool) (text : List Char) : Option Numeral :=
  match Digit.split text with
  | ([], _) => none
  | (digit :: digits, text) =>
      if digit = 0 ∧ digits ≠ [] then none
      else (fractionExponent? text).map fun (fraction, exponent) =>
        ⟨negative, Digit.value (digit :: digits), fraction, exponent⟩

def read? : List Char → Option Numeral
  | '-' :: text => magnitude? true text
  | text => magnitude? false text

def chars (numeral : Numeral) : List Char :=
  (if numeral.negative then ['-'] else []) ++ Digit.chars numeral.whole ++
    (if numeral.fraction = [] then [] else '.' :: numeral.fraction.map Digit.char) ++
    match numeral.exponent with
    | none => []
    | some exponent => 'e' :: (if exponent < 0 then '-' else '+') :: Digit.chars exponent.natAbs

def ofInt (whole : Int) : Numeral :=
  ⟨whole < 0, whole.natAbs, [], none⟩

def whole? (numeral : Numeral) : Option Int :=
  if numeral.fraction = [] ∧ numeral.exponent = none ∧ ¬(numeral.negative ∧ numeral.whole = 0) then
    some (Binary64.signed numeral.negative numeral.whole)
  else none

def decimal (numeral : Numeral) : Decimal :=
  ⟨numeral.whole * Nat.pow 10 numeral.fraction.length + Digit.value numeral.fraction,
    numeral.exponent.getD 0 - numeral.fraction.length⟩

/-- The digits that a word holds, with each one left over before the point a zero. -/
def leading (numeral : Numeral) : Decimal :=
  let (whole, dropped) := Digit.accumulate 0 (Digit.ofNat numeral.whole)
  let (digits, ignored) := Digit.accumulate whole numeral.fraction
  ⟨digits, numeral.exponent.getD 0 + dropped.length - (numeral.fraction.length - ignored.length)⟩

def toBinary64? (numeral : Numeral) : Option Binary64 :=
  let number := numeral.leading.scaled numeral.negative
  if number.isFinite then some number else none

def isPositional (leading : Int) : Bool :=
  -5 ≤ leading ∧ leading ≤ 15

def ofDecimal (negative : Bool) (decimal : Decimal) : Numeral :=
  let digits := Digit.ofNat decimal.digits
  let leading := decimal.exponent + digits.length - 1
  if decimal.digits = 0 then ⟨negative, 0, [0], none⟩
  else if isPositional leading then
    match decimal.exponent with
    | .ofNat exponent => ⟨negative, decimal.digits * Nat.pow 10 exponent, [0], none⟩
    | .negSucc exponent =>
        let places := exponent + 1
        ⟨negative, decimal.digits / Nat.pow 10 places, Digit.last places decimal.digits, none⟩
  else
    let places := digits.length - 1
    ⟨negative, decimal.digits / Nat.pow 10 places, Digit.last places decimal.digits, some leading⟩

end Numeral

end Rulebook.Json
