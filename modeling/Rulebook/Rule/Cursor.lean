import Rulebook.Fault
import Rulebook.Rule.Token

/-!
Reading rules from a row of tokens, one token at a time.

A rule is a condition, `field relation value`; a group around one rule, which adds nothing to it;
or a group around two rules with a connective between them. The groups that are still open wait on
a stack, so one token decides each step, and reading stops right after the token that completes the
rule or makes it impossible.
-/

namespace Rulebook

/-- How closely a text has to follow the grammar. -/
inductive Strictness where
  | strict
  | lenient
deriving DecidableEq, Repr

inductive OpenGroup where
  | first
  | second (connective : Connective) (left : Rule)
deriving DecidableEq, Repr

/-- What comes next in a rule, with the groups around that point from the innermost on. -/
inductive Pending where
  | rule (groups : List OpenGroup)
  | relation (field : String) (groups : List OpenGroup)
  | value (field : String) (relation : Relation) (groups : List OpenGroup)
  | connective (left : Rule) (groups : List OpenGroup)
  | closing (whole : Rule) (groups : List OpenGroup)
deriving DecidableEq, Repr

inductive Progress where
  | pending (pending : Pending)
  | complete (rule : Rule)
deriving DecidableEq, Repr

namespace Pending

def expectation : Pending → Expectation
  | .rule _ => .rule
  | .relation .. => .relation
  | .value .. => .value
  | .connective .. => .connective
  | .closing .. => .closing

def depth : Pending → Nat
  | .rule groups | .relation _ groups | .value _ _ groups => groups.length
  | .connective _ groups | .closing _ groups => groups.length + 1

def depthAfter (pending : Pending) (token : Token) : Nat :=
  match pending with
  | .rule groups => if token = .opening then groups.length + 1 else groups.length
  | _ => pending.depth

def after (rule : Rule) : List OpenGroup → Progress
  | [] => .complete rule
  | .first :: groups => .pending (.connective rule groups)
  | .second joint left :: groups => .pending (.closing (.junction joint left rule) groups)

/-- Reads one token, at the given position and with some groups open around the whole rule. -/
def next (strictness : Strictness) (outer position : Nat) (pending : Pending) (token : Token) :
    Except Fault Progress :=
  match pending with
  | .rule groups =>
      if token = .opening then
        if outer + groups.length < maxNesting then .ok (.pending (.rule (.first :: groups)))
        else .error (.malformed .tooDeep)
      else if token = .closing ∧ strictness = .strict then
        .error (.malformed (.strayClosing position))
      else .ok (.pending (.relation token.text groups))
  | .relation field groups =>
      (Relation.read token.text).map fun found => .pending (.value field found groups)
  | .value field found groups =>
      if (token = .opening ∨ token = .closing) ∧ strictness = .strict then
        .error (.malformed (.notValue field position token.text))
      else .ok (after (.condition field found token.text) groups)
  | .connective left groups =>
      if token = .closing then .ok (after left groups)
      else (Connective.read token.text).map fun joint =>
        .pending (.rule (.second joint left :: groups))
  | .closing whole groups =>
      if token ≠ .closing ∧ strictness = .strict then
        .error (.malformed (.notClosing position token.text))
      else .ok (after whole groups)

end Pending

/-- A place in a row of tokens, with the groups that failed readings before it left open. -/
structure Cursor where
  strictness : Strictness
  position : Nat := 0
  remaining : List Token
  outer : Nat := 0
deriving DecidableEq, Repr

namespace Cursor

def resume (strictness : Strictness) (outer : Nat) :
    Pending → Nat → List Token → Except Fault Rule × Cursor
  | pending, position, [] =>
      (.error (.malformed (.ended pending.expectation position)),
        ⟨strictness, position, [], outer + pending.depth⟩)
  | pending, position, token :: tokens =>
      match pending.next strictness outer position token with
      | .ok (.complete rule) => (.ok rule, ⟨strictness, position + 1, tokens, outer⟩)
      | .ok (.pending pending) => resume strictness outer pending (position + 1) tokens
      | .error fault =>
          (.error fault, ⟨strictness, position + 1, tokens, outer + pending.depthAfter token⟩)

def next (cursor : Cursor) : Except Fault Rule × Cursor :=
  resume cursor.strictness cursor.outer (.rule []) cursor.position cursor.remaining

def run : Nat → Cursor → List (Except Fault Rule × Cursor)
  | 0, _ => []
  | count + 1, cursor =>
      let step := cursor.next
      step :: run count step.2

end Cursor

namespace Rule

def parse (strictness : Strictness) (text : String) : Except Fault Rule :=
  match Token.split text with
  | [] => .error (.malformed .noTokens)
  | tokens =>
      match Cursor.next { strictness, remaining := tokens } with
      | (.error fault, _) => .error fault
      | (.ok rule, cursor) =>
          if strictness = .strict ∧ cursor.remaining ≠ [] then
            .error (.malformed (.trailing cursor.position (cursor.remaining.map Token.text)))
          else .ok rule

end Rule

end Rulebook
