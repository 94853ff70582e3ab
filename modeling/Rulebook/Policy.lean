import Rulebook.Rule.Cursor
import Rulebook.Json.Fields
import Rulebook.Json.Parser
import Rulebook.Json.Printer

/-!
Policies: how closely rules have to follow the grammar, and how several are joined into one.
-/

namespace Rulebook

/-- How rules are joined: in a chain of groups, or in a row after a connective that no reading
takes. -/
inductive Joining where
  | chained
  | legacy
deriving DecidableEq, Repr

structure Policy where
  strictness : Strictness := .strict
  joining : Joining := .chained
deriving DecidableEq, Repr

namespace Strictness

def text : Strictness → String
  | strict => "strict"
  | lenient => "lenient"

def all : List Strictness := [strict, lenient]

def ofText? (text : String) : Option Strictness :=
  Text.named? Strictness.text all text

theorem ofText?_eq_some_iff {text : String} {strictness : Strictness} :
    ofText? text = some strictness ↔ strictness.text = text :=
  Text.named?_eq_some_iff (fun item other => by cases item <;> cases other <;> decide)
    (fun item => by cases item <;> decide)

end Strictness

namespace Joining

def text : Joining → String
  | chained => "chained"
  | legacy => "legacy"

def all : List Joining := [chained, legacy]

def ofText? (text : String) : Option Joining :=
  Text.named? Joining.text all text

theorem ofText?_eq_some_iff {text : String} {joining : Joining} :
    ofText? text = some joining ↔ joining.text = text :=
  Text.named?_eq_some_iff (fun item other => by cases item <;> cases other <;> decide)
    (fun item => by cases item <;> decide)

end Joining

namespace Policy

def legacy : Policy := ⟨.lenient, .legacy⟩

def setting? {α : Type} (ofText? : String → Option α) (default : α) : Option Json → Option α
  | none => some default
  | some value => (value.name? 1).bind ofText?

def ofJson? (value : Json) : Option Policy := do
  let fields ← value.fields? 2
  let strictness ← setting? Strictness.ofText? .strict (← fields.find? 0 "parse_mode")
  let joining ← setting? Joining.ofText? .chained (← fields.find? 1 "combine_style")
  return ⟨strictness, joining⟩

def toJson (policy : Policy) : Json :=
  .object
    [(.ofText "parse_mode", .ofText policy.strictness.text),
      (.ofText "combine_style", .ofText policy.joining.text)]

def render (policy : Policy) : String :=
  policy.toJson.render

def parse? (text : String) : Option Policy :=
  (Json.parse? text).bind ofJson?

def parseRule (policy : Policy) (text : String) : Except Fault Rule :=
  Rule.parse policy.strictness text

end Policy

end Rulebook
