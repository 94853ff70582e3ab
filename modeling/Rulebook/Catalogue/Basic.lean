import Rulebook.Document.Json
import Rulebook.Report
import Rulebook.Rule.Join

/-!
Catalogues: rules kept under numbers, read and joined under one policy. Numbers are given out in
order, starting with one, and only to rules that can be read; none is given out twice.
-/

namespace Rulebook

structure KeptRule where
  id : RuleId
  name : String
  description : String
  text : String
  rule : Rule
deriving DecidableEq, Repr

namespace KeptRule

def toJson (kept : KeptRule) : Json :=
  .object
    [(.ofText "rule_id", .number (.ofInt kept.id.toNat)),
      (.ofText "name", .ofText kept.name),
      (.ofText "description", .ofText kept.description),
      (.ofText "rule_string", .ofText kept.text),
      (.ofText "ast", (Document.ofRule kept.rule).toJson)]

def render (kept : KeptRule) : String :=
  kept.toJson.render

def renderAll (kept : List KeptRule) : String :=
  (Json.array (kept.map toJson)).render

end KeptRule

/-- Rules by number, and the number that the next one gets. -/
structure Catalogue where
  policy : Policy
  rules : Std.ExtTreeMap RuleId KeptRule := ∅
  nextId : RuleId := 1

namespace Catalogue

def toList (catalogue : Catalogue) : List KeptRule :=
  catalogue.rules.toList.map (·.2)

def ids (catalogue : Catalogue) : List RuleId :=
  catalogue.rules.keys

def size (catalogue : Catalogue) : Nat :=
  catalogue.rules.size

def isEmpty (catalogue : Catalogue) : Bool :=
  catalogue.rules.isEmpty

def find (catalogue : Catalogue) (id : RuleId) : Except Fault KeptRule :=
  match catalogue.rules[id]? with
  | some kept => .ok kept
  | none => .error (.unknownRule id)

theorem find_eq_ok_iff {catalogue : Catalogue} {id : RuleId} {kept : KeptRule} :
    catalogue.find id = .ok kept ↔ catalogue.rules[id]? = some kept := by
  unfold find
  split <;> simp [*]

def add (catalogue : Catalogue) (name description text : String) :
    Except Fault (KeptRule × Catalogue) := do
  let rule ← catalogue.policy.parseRule text
  let kept : KeptRule := ⟨catalogue.nextId, name, description, text, rule⟩
  return (kept,
    { catalogue with
      rules := catalogue.rules.insert kept.id kept
      nextId := catalogue.nextId + 1 })

def remove (catalogue : Catalogue) (id : RuleId) : Except Fault Catalogue := do
  let _ ← catalogue.find id
  return { catalogue with rules := catalogue.rules.erase id }

def join (catalogue : Catalogue) (connective : Connective) (ids : List RuleId)
    (name description : String) : Except Fault (KeptRule × Catalogue) := do
  let parts ← ids.mapM catalogue.find
  let text ← catalogue.policy.join connective (parts.map KeptRule.text)
  catalogue.add name description text

def evaluate (catalogue : Catalogue) (id : RuleId) (record : Record) : Except Fault Bool := do
  let kept ← catalogue.find id
  kept.rule.evaluate record

def report (catalogue : Catalogue) (ids : List RuleId) (records : List Record) :
    Except Fault Report := do
  let rules ← ids.mapM fun id => (catalogue.find id).map fun kept => (id, kept.rule)
  return Report.evaluate rules records

end Catalogue

end Rulebook
