import Rulebook.Number.Literal
import Rulebook.Record
import Rulebook.Rule.Basic
import Rulebook.Fault
import Rulebook.Text.Blank

/-!
What a rule says of a record.

Both sides of a junction are always evaluated, so a rule that fails somewhere fails as a whole, and
its first failure from the left is reported.
-/

namespace Rulebook

/-- A literal without the single quotes around it, and then without the double quotes. -/
def unquote (literal : String) : String :=
  let inner := Text.dropEdges (· == '\'') literal.toList
  String.ofList (Text.dropEdges (· == '"') inner)

/-- The number that a literal writes, whatever quotes and then blanks are around it. -/
def literalNumber? (literal : String) : Option Number.Binary64 :=
  Number.Literal.read? (Text.dropEdges Text.isBlank (unquote literal).toList)

def readNumber (field literal : String) : Except Fault Number.Binary64 :=
  match literalNumber? literal with
  | some number => .ok number
  | none => .error (.notNumeric field (unquote literal))

def orderToWhole (number : Int64) (whole : Int) : Ordering :=
  -- Beyond 64 bits a whole number lies above all the integers or below all of them.
  if Int64.maxValue.toInt < whole then .lt
  else if whole < Int64.minValue.toInt then .gt
  else compare number (.ofInt whole)

/-- How the value of a field compares with a literal, which is read as the kind of the value asks
for. -/
def Value.orderToLiteral (actual : Value) (field literal : String) :
    Except Fault (Option Ordering) :=
  match actual with
  | .integer number => do
      -- The literal has to be finite, and only its whole part counts.
      match (← readNumber field literal).truncate? with
      | some whole => return some (orderToWhole number whole)
      | none => throw (.notNumeric field (unquote literal))
  | .float number => return number.order? (← readNumber field literal)
  | .text written => return some (compare written (unquote literal))

def Relation.compare (relation : Relation) (actual : Value) (field literal : String) :
    Except Fault Bool :=
  (actual.orderToLiteral field literal).map relation.holds

def Rule.evaluate (record : Record) : Rule → Except Fault Bool
  | .junction connective left right => do
      let left ← left.evaluate record
      let right ← right.evaluate record
      return connective.join left right
  | .condition field relation literal =>
      match record.get? field with
      | some actual => relation.compare actual field literal
      | none => .error (.missingField field)
  | .term text => .error (.noTruthValue text)

end Rulebook
