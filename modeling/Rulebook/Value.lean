import Rulebook.Json.Fields
import Rulebook.Json.Numeral
import Rulebook.Json.Parser
import Rulebook.Json.Printer

/-!
The values that records hold: whole numbers of 64 bits, floating-point numbers, and texts.
-/

namespace Rulebook

open Number

inductive Value where
  | integer (number : Int64)
  | float (number : Binary64)
  | text (written : String)
deriving DecidableEq

namespace Value

def integer? (whole : Int) : Option Int64 :=
  if Int64.minValue.toInt ≤ whole ∧ whole ≤ Int64.maxValue.toInt then some (.ofInt whole) else none

/-- The value that a numeral writes: an integer if it is written as one and fits, and a
floating-point number otherwise. -/
def ofNumeral? (readFloat : Json.FloatReader) (numeral : Json.Numeral) : Option Value :=
  match numeral.whole?.bind integer? with
  | some number => some (.integer number)
  | none => (readFloat numeral).map .float

def ofJson? (readFloat : Json.FloatReader) : Json → Option Value
  | .number numeral => ofNumeral? readFloat numeral
  | .string written => written.text?.map .text
  | _ => none

def toJson : Value → Json
  | .integer number => .number (.ofInt number.toInt)
  | .float (.finite negative units _) =>
      .number (.ofDecimal negative (Binary64.shortest units))
  | .float _ => .null
  | .text written => .ofText written

def render (value : Value) : String :=
  value.toJson.render

def parse? (text : String) (readFloat : Json.FloatReader := Json.Numeral.toBinary64?) :
    Option Value :=
  (Json.parse? text).bind (ofJson? readFloat)

def order? : Value → Value → Option Ordering
  | .integer number, .integer number' => some (compare number.toInt number'.toInt)
  | .float number, .float number' => number.order? number'
  | .text written, .text written' => some (compare written written')
  | _, _ => none

end Value

end Rulebook
