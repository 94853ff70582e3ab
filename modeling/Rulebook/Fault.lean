import Rulebook.Rule.Basic

/-!
Why a rule cannot be read, joined, evaluated or found, and how that is worded.
-/

namespace Rulebook

abbrev RuleId := UInt64

inductive Expectation where
  | rule
  | relation
  | value
  | connective
  | closing
deriving DecidableEq, Repr

def Expectation.text : Expectation → String
  | rule => "a field name or '('"
  | relation => "a comparison operator"
  | value => "a value"
  | connective => "AND or OR"
  | closing => "')'"

/-- Why a text is no rule. Positions count tokens from zero. -/
inductive Malformation where
  | noTokens
  | noRules
  | tooDeep
  | ended (expected : Expectation) (position : Nat)
  | trailing (position : Nat) (tokens : List String)
  | strayClosing (position : Nat)
  | notValue (field : String) (position : Nat) (found : String)
  | notClosing (position : Nat) (found : String)
deriving DecidableEq, Repr

def Malformation.text : Malformation → String
  | noTokens => "Empty rule string"
  | noRules => "No rules to combine"
  | tooDeep => s!"nesting deeper than {maxNesting} levels"
  | ended expected position => s!"expected {expected.text} at {position}, but the rule ended"
  | trailing position tokens =>
      s!"unexpected trailing tokens at {position}: " ++ " ".intercalate tokens
  | strayClosing position => s!"unexpected ')' at {position}"
  | notValue field position found =>
      s!"expected a value for '{field}' at {position}, found '{found}'"
  | notClosing position found => s!"expected ')' at {position}, found '{found}'"

inductive Side where
  | left
  | right
deriving DecidableEq, Repr

def Side.text : Side → String
  | left => "left"
  | right => "right"

inductive NodeKind where
  | junction
  | condition
  | term
deriving DecidableEq, Repr

namespace NodeKind

def text : NodeKind → String
  | junction => "operator"
  | condition => "comparison"
  | term => "operand"

def all : List NodeKind := [junction, condition, term]

def ofText? (text : String) : Option NodeKind :=
  Text.named? NodeKind.text all text

theorem ofText?_eq_some_iff {text : String} {kind : NodeKind} :
    ofText? text = some kind ↔ kind.text = text :=
  Text.named?_eq_some_iff (fun item other => by cases item <;> cases other <;> decide)
    (fun item => by cases item <;> decide)

end NodeKind

inductive DocumentDefect where
  | tooDeep
  | noValue (kind : NodeKind)
  | noRule (side : Side)
  | termAsRule (side : Side)
  | noTerm (side : Side)
  | notTerm (side : Side)
  | termWithChildren
deriving DecidableEq, Repr

def DocumentDefect.text : DocumentDefect → String
  | tooDeep => s!"nesting deeper than {maxNesting} levels"
  | noValue kind => s!"{kind.text} node without value"
  | noRule side => s!"operator node missing {side.text} child"
  | termAsRule side => s!"operator node has operand as {side.text} child"
  | noTerm side => s!"comparison node missing {side.text} operand"
  | notTerm side => s!"comparison {side.text} child must be an operand"
  | termWithChildren => "operand must not have children"

inductive Fault where
  | malformed (cause : Malformation)
  | unknownOperator (text : String)
  | missingField (field : String)
  | notNumeric (field text : String)
  | noTruthValue (term : String)
  | invalidDocument (defect : DocumentDefect)
  | unknownRule (id : RuleId)
deriving DecidableEq, Repr

namespace Fault

def message : Fault → String
  | malformed cause => s!"Malformed rule: {cause.text}"
  | unknownOperator text => s!"Unsupported operator: {text}"
  | missingField field => s!"Field {field} not found in data"
  | notNumeric field text =>
      s!"Cannot compare numeric field '{field}' with non-numeric value '{text}'"
  | noTruthValue term => s!"Invalid node: operand '{term}' cannot be evaluated as a rule"
  | invalidDocument defect => s!"Invalid AST document: {defect.text}"
  | unknownRule id => s!"Rule not found: {id.toNat}"

end Fault

def Connective.read (text : String) : Except Fault Connective :=
  match ofText? text with
  | some connective => .ok connective
  | none => .error (.unknownOperator text)

theorem Connective.read_eq_ok_iff {text : String} {connective : Connective} :
    Connective.read text = .ok connective ↔ connective.text = text := by
  rw [read, ← ofText?_eq_some_iff]
  split <;> simp [*]

def Relation.read (text : String) : Except Fault Relation :=
  match ofText? text with
  | some relation => .ok relation
  | none => .error (.unknownOperator text)

theorem Relation.read_eq_ok_iff {text : String} {relation : Relation} :
    Relation.read text = .ok relation ↔ relation.text = text := by
  rw [read, ← ofText?_eq_some_iff]
  split <;> simp [*]

end Rulebook
