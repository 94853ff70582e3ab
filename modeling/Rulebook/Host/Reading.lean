import Rulebook.Document.Basic
import Rulebook.Host.Object
import Rulebook.Policy

/-!
Reading documents, records, rules and policies from objects of the host program, and giving them
back as such.
-/

namespace Rulebook.Host

/-- The document that an object writes within the given number of levels, be it a rule or not. -/
def readDocumentWithin : Nat → Object → Except Failure Document
  | 0, _ => .error (.ofFault (.invalidDocument .tooDeep))
  | levels + 1, .dict items => do
      let some kind := Object.item? items "type" | throw (.wrongValue "AST node without type")
      let kind ← kind.readText
      let some kind := NodeKind.ofText? kind | throw (.wrongValue ("Unknown node type: " ++ kind))
      let value ← match (Object.item? items "value").bind Object.given? with
        | none => pure none
        | some value => some <$> value.readText
      let left ← match (Object.item? items "left").bind Object.given? with
        | none => pure none
        | some child => some <$> readDocumentWithin levels child
      let right ← match (Object.item? items "right").bind Object.given? with
        | none => pure none
        | some child => some <$> readDocumentWithin levels child
      return ⟨kind, value, left, right⟩
  | _ + 1, _ => .error (.wrongType "AST node must be a dict")

def readDocument (object : Object) : Except Failure Document :=
  readDocumentWithin (maxNesting + 1) object

/-- The rule that an object writes, which is read whole before it is checked. -/
def readRule (object : Object) : Except Failure Rule := do
  Failure.lift (← readDocument object).toRule

def readValue (field : String) : Object → Except Failure Value
  | .text value => .ok (.text value)
  | .float value => .ok (.float value)
  | object =>
      match object.int? with
      | none => .error (.wrongType ("Field " ++ field ++ " must be a number or a string"))
      | some whole =>
          match Value.integer? whole with
          | some number => .ok (.integer number)
          | none => .error .overflow

def readRecord : Object → Except Failure Record
  | .dict items => do
      let values ← items.mapM fun (key, value) => do
        let field ← key.readText
        return (field, ← readValue field value)
      return Record.ofList values
  | _ => .error (.wrongType "Evaluation data must be a dict")

def readId (object : Object) : Except Failure RuleId :=
  match object.int? with
  | none => .error .conversion
  | some whole =>
      if 0 ≤ whole ∧ whole < UInt64.size then .ok whole.toNat.toUInt64 else .error .overflow

def readRules (items : List (Object × Object)) : Except Failure (List (RuleId × Rule)) :=
  items.mapM fun (key, value) => do
    let id ← readId key
    return (id, ← readRule value)

def readSetting {α : Type} (name : String) (ofText? : String → Option α) (default : α)
    (items : List (Object × Object)) : Except Failure α :=
  match Object.item? items name with
  | none => .ok default
  | some value => do
      let text ← value.readText
      match ofText? text with
      | some setting => return setting
      | none => throw (.wrongValue ("Invalid " ++ name ++ ": " ++ text))

def readPolicy (items : List (Object × Object)) : Except Failure Policy := do
  let strictness ← readSetting "parse_mode" Strictness.ofText? .strict items
  let joining ← readSetting "combine_style" Joining.ofText? .chained items
  return ⟨strictness, joining⟩

namespace Object

def ofDocument : Document → Object
  | ⟨kind, value, left, right⟩ =>
      .dict
        ([(.text "type", .text kind.text), (.text "value", value.elim .none .text)] ++
          (match left with
            | .none => []
            | some child => [(.text "left", ofDocument child)]) ++
          (match right with
            | .none => []
            | some child => [(.text "right", ofDocument child)]))

def ofValue : Value → Object
  | .integer number => .int number.toInt
  | .float number => .float number
  | .text written => .text written

def ofOutcome : Outcome → Object
  | .decided holds => .bool holds
  | .failed message => .text message

def ofEntry (entry : Entry) : Object :=
  .dict
    [(.text "data",
        .dict (entry.record.toList.map fun (field, value) => (.text field, ofValue value))),
      (.text "results",
        .dict (entry.outcomes.toList.map fun (id, outcome) => (.int id.toNat, ofOutcome outcome)))]

def ofReport (report : Report) : Object :=
  .list (report.map ofEntry)

end Object

end Rulebook.Host
