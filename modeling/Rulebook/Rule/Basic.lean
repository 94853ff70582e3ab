import Rulebook.Text.Name

/-!
Rules: conditions on the fields of a record, joined two by two.
-/

namespace Rulebook

/-- How many groups may be open around a point of a rule, and how many levels a document may have
below its root. -/
def maxNesting : Nat := 256

inductive Connective where
  | and
  | or
deriving DecidableEq, Repr

namespace Connective

def text : Connective → String
  | and => "AND"
  | or => "OR"

def all : List Connective := [and, or]

def ofText? (text : String) : Option Connective :=
  Text.named? Connective.text all text

theorem ofText?_eq_some_iff {text : String} {connective : Connective} :
    ofText? text = some connective ↔ connective.text = text :=
  Text.named?_eq_some_iff (fun item other => by cases item <;> cases other <;> decide)
    (fun item => by cases item <;> decide)

def join : Connective → Bool → Bool → Bool
  | and, left, right => left && right
  | or, left, right => left || right

end Connective

inductive Relation where
  | greater
  | less
  | equal
  | greaterOrEqual
  | lessOrEqual
deriving DecidableEq, Repr

namespace Relation

def text : Relation → String
  | greater => ">"
  | less => "<"
  | equal => "="
  | greaterOrEqual => ">="
  | lessOrEqual => "<="

def all : List Relation := [greater, less, equal, greaterOrEqual, lessOrEqual]

def ofText? (text : String) : Option Relation :=
  Text.named? Relation.text all text

theorem ofText?_eq_some_iff {text : String} {relation : Relation} :
    ofText? text = some relation ↔ relation.text = text :=
  Text.named?_eq_some_iff (fun item other => by cases item <;> cases other <;> decide)
    (fun item => by cases item <;> decide)

def holds : Relation → Option Ordering → Bool
  | _, none => false
  | greater, some order => order.isGT
  | less, some order => order.isLT
  | equal, some order => order.isEq
  | greaterOrEqual, some order => order.isGE
  | lessOrEqual, some order => order.isLE

end Relation

/-- A rule, or a term in the place of one: a name or literal on its own, which has no truth value.
-/
inductive Rule where
  | junction (connective : Connective) (left right : Rule)
  | condition (field : String) (relation : Relation) (literal : String)
  | term (text : String)
deriving DecidableEq, Repr

namespace Rule

def conditionCount : Rule → Nat
  | junction _ left right => left.conditionCount + right.conditionCount
  | condition .. => 1
  | term _ => 0

def render : Rule → String
  | junction connective left right =>
      "(" ++ left.render ++ " " ++ connective.text ++ " " ++ right.render ++ ")"
  | condition field relation literal => field ++ " " ++ relation.text ++ " " ++ literal
  | term text => text

end Rule

end Rulebook
