import Rulebook.Document.Basic
import Rulebook.Json.Fields
import Rulebook.Json.Parser
import Rulebook.Json.Printer

/-!
Documents as JSON. A node is written as an object with its kind, its value or `null`, and the nodes
below it that are there.
-/

namespace Rulebook.Document

/-- The levels of nesting that a JSON text may have. -/
def maxLevels : Nat := 127

def toJson : Document → Json
  | ⟨kind, value, left, right⟩ =>
      .object
        ([(.ofText "type", .ofText kind.text), (.ofText "value", value.elim .null .ofText)] ++
          (match left with
            | none => []
            | some child => [(.ofText "left", child.toJson)]) ++
          (match right with
            | none => []
            | some child => [(.ofText "right", child.toJson)]))

def render (document : Document) : String :=
  document.toJson.render

def valueOfJson? (fields : Json.Fields) : Option (Option String) := do
  match ← fields.find? 1 "value", fields with
  | none, .named _ => some none
  | none, .listed _ => none
  | some .null, _ => some none
  | some value, _ => value.text?.map some

def below? (read? : Json → Option Document) : Option Json → Option (Option Document)
  | none | some .null => some none
  | some child => (read? child).map some

def ofJson? : Nat → Json → Option Document
  | 0, _ => none
  | levels + 1, value => do
      let fields ← value.fields? 4
      let kind ← NodeKind.ofText? (← (← (← fields.find? 0 "type")).name? levels)
      let text ← valueOfJson? fields
      let left ← below? (ofJson? levels) (← fields.find? 2 "left")
      let right ← below? (ofJson? levels) (← fields.find? 3 "right")
      return ⟨kind, text, left, right⟩

def parse? (text : String) : Option Document :=
  (Json.parse? text).bind (ofJson? maxLevels)

end Rulebook.Document
