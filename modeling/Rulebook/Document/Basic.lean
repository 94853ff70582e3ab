import Rulebook.Fault

/-!
Documents: rules as trees of tagged nodes, the form in which they are kept and sent. A document need
not be a rule; `Document.toRule` says whether it is one.
-/

namespace Rulebook

/-- A node of a document, with the nodes below it. -/
structure Document where
  kind : NodeKind
  value : Option String
  left : Option Document
  right : Option Document

namespace Document

instance : Inhabited Document := ⟨⟨.term, none, none, none⟩⟩

def term (text : String) : Document :=
  ⟨.term, some text, none, none⟩

def ofRule : Rule → Document
  | .junction connective left right =>
      ⟨.junction, some connective.text, some (ofRule left), some (ofRule right)⟩
  | .condition field relation literal =>
      ⟨.condition, some relation.text, some (term field), some (term literal)⟩
  | .term text => term text

def readValue (document : Document) : Except Fault String :=
  match document.value with
  | some value => .ok value
  | none => .error (.invalidDocument (.noValue document.kind))

def readTerm (document : Document) : Except Fault String :=
  if document.left.isSome || document.right.isSome then
    .error (.invalidDocument .termWithChildren)
  else document.readValue

def ruleBelow (side : Side) : Option Document → Except Fault Document
  | none => .error (.invalidDocument (.noRule side))
  | some child =>
      if child.kind = .term then .error (.invalidDocument (.termAsRule side)) else .ok child

def termBelow (levels : Nat) (side : Side) (child : Option Document) : Except Fault String :=
  if levels = 0 then .error (.invalidDocument .tooDeep)
  else match child with
    | none => .error (.invalidDocument (.noTerm side))
    | some child =>
        if child.kind = .term then child.readTerm else .error (.invalidDocument (.notTerm side))

/-- The rule of a document that may have the given number of levels, its root included. -/
def toRuleWithin : Nat → Document → Except Fault Rule
  | 0, _ => .error (.invalidDocument .tooDeep)
  | levels + 1, document =>
      match document.kind with
      | .junction => do
          let connective ← Connective.read (← document.readValue)
          let left ← toRuleWithin levels (← ruleBelow .left document.left)
          let right ← toRuleWithin levels (← ruleBelow .right document.right)
          return .junction connective left right
      | .condition => do
          let relation ← Relation.read (← document.readValue)
          let field ← termBelow levels .left document.left
          let literal ← termBelow levels .right document.right
          return .condition field relation literal
      | .term => return .term (← document.readTerm)

def toRule (document : Document) : Except Fault Rule :=
  document.toRuleWithin (maxNesting + 1)

end Document

end Rulebook
