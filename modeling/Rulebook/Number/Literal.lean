import Rulebook.Number.Decimal

/-!
Numbers as rule literals write them: an optional sign, then `inf`, `infinity` or `nan` in letters of
either case, or digits with at most one point among or around them and an optional exponent.
-/

namespace Rulebook.Number.Literal

def splitSign : List Char → Bool × List Char
  | '-' :: rest => (true, rest)
  | '+' :: rest => (false, rest)
  | text => (false, text)

def exponent? : List Char → Option Int
  | [] => some 0
  | mark :: text =>
      if mark = 'e' ∨ mark = 'E' then
        match splitSign text with
        | (negative, text) =>
          match Digit.split text with
          | (digit :: digits, []) => some (Binary64.signed negative (Digit.value (digit :: digits)))
          | _ => none
      else none

def decimal? (text : List Char) : Option Decimal :=
  let (whole, rest) := Digit.split text
  let (fraction, rest) := match rest with
    | '.' :: rest => Digit.split rest
    | rest => ([], rest)
  if whole.isEmpty && fraction.isEmpty then none
  else (exponent? rest).map fun exponent =>
    ⟨Digit.value (whole ++ fraction), exponent - fraction.length⟩

def read? (text : List Char) : Option Binary64 :=
  let (negative, magnitude) := splitSign text
  let word := String.ofList (magnitude.map Char.toLower)
  if word = "inf" ∨ word = "infinity" then some (.infinite negative)
  else if word = "nan" then some .nan
  else (decimal? magnitude).map (Decimal.toBinary64 negative)

end Rulebook.Number.Literal
