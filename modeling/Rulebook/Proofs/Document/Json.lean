import Rulebook.Document.Json
import Rulebook.Proofs.Document.Basic
import Rulebook.Proofs.Json.Parser
import Rulebook.Proofs.Rule.Chain

/-!
Documents as JSON: the written form of a document is read back as that document exactly as long as
no chain of nodes in it is longer than the levels of nesting that a text may have.
-/

namespace Rulebook

namespace Document

def membersBelow (name : String) (child : Option Document) : List (Json.Quoted × Json) :=
  (child.map fun child => (Json.Quoted.ofText name, child.toJson)).toList

theorem toJson_node (kind : NodeKind) (value : Option String) (left right : Option Document) :
    toJson ⟨kind, value, left, right⟩ = .object ([(.ofText "type", .ofText kind.text),
      (.ofText "value", value.elim .null .ofText)] ++ membersBelow "left" left ++
        membersBelow "right" right) := by
  cases left <;> cases right <;> rfl

theorem readable_toJson (document : Document) : document.toJson.Readable := by
  induction document using Document.induction with
  | node kind value left right leftReadable rightReadable =>
      have valueReadable : (value.elim .null .ofText : Json).Readable := by
        cases value with
        | none => exact .null
        | some text => exact Json.readable_ofText text
      rw [toJson_node]
      refine .object ?_ ?_
      · intro member isMember
        simp only [membersBelow, List.mem_append, List.mem_cons, List.not_mem_nil, or_false,
          Option.mem_toList, Option.map_eq_some_iff] at isMember
        rcases isMember with ((rfl | rfl) | ⟨child, -, rfl⟩) | ⟨child, -, rfl⟩ <;>
          exact Json.Lexeme.readable_quoted_ofText _
      · intro member isMember
        simp only [membersBelow, List.mem_append, List.mem_cons, List.not_mem_nil, or_false,
          Option.mem_toList, Option.map_eq_some_iff] at isMember
        rcases isMember with ((rfl | rfl) | ⟨child, below, rfl⟩) | ⟨child, below, rfl⟩
        · exact Json.readable_ofText _
        · exact valueReadable
        · exact leftReadable child below
        · exact rightReadable child below

theorem fields?_toJson (kind : NodeKind) (value : Option String) (left right : Option Document) :
    ∃ fields, (toJson ⟨kind, value, left, right⟩).fields? 4 = some (.named fields) ∧
      Json.Fields.find? 0 "type" (.named fields) = some (some (.ofText kind.text)) ∧
      Json.Fields.find? 1 "value" (.named fields) = some (some (value.elim .null .ofText)) ∧
      Json.Fields.find? 2 "left" (.named fields) = some (left.map toJson) ∧
      Json.Fields.find? 3 "right" (.named fields) = some (right.map toJson) := by
  refine ⟨[("type", .ofText kind.text), ("value", value.elim .null .ofText)] ++
    (left.map fun child => ("left", child.toJson)).toList ++
    (right.map fun child => ("right", child.toJson)).toList, ?_⟩
  rw [toJson_node]
  cases left <;> cases right <;>
    simp [Json.fields?, Json.members?, membersBelow, Json.Fields.find?]

theorem below?_object (read? : Json → Option Document) (members : List (Json.Quoted × Json)) :
    below? read? (some (.object members)) = (read? (.object members)).map some := rfl

theorem below?_toJson {levels : Nat} {child : Option Document}
    (read : ∀ document ∈ child,
      ofJson? levels document.toJson = if document.levels ≤ levels then some document else none) :
    below? (ofJson? levels) (child.map toJson) =
      if levelsBelow child ≤ levels then some child else none := by
  cases child with
  | none => simp [below?, levelsBelow]
  | some document =>
      obtain ⟨kind, value, left, right⟩ := document
      have read := read _ rfl
      rw [toJson_node] at read
      rw [Option.map_some, toJson_node, below?_object, read, levelsBelow, Option.elim]
      split
      · rfl
      · rfl

theorem valueOfJson?_named {fields : List (String × Json)} {value : Option String}
    (found : Json.Fields.find? 1 "value" (.named fields) = some (some (value.elim .null .ofText))) :
    valueOfJson? (.named fields) = some value := by
  rw [valueOfJson?, found]
  cases value with
  | none => rfl
  | some text => simp [Json.ofText, Json.text?]

theorem ofJson?_toJson (document : Document) (levels : Nat) :
    ofJson? levels document.toJson =
      if document.levels ≤ levels then some document else none := by
  induction document using Document.induction generalizing levels with
  | node kind value left right leftRead rightRead =>
      cases levels with
      | zero => simp [ofJson?, levels_node]
      | succ levels =>
          obtain ⟨fields, named, kindField, valueField, leftField, rightField⟩ :=
            fields?_toJson kind value left right
          have kindRead : NodeKind.ofText? kind.text = some kind :=
            NodeKind.ofText?_eq_some_iff.mpr rfl
          have leftBelow := below?_toJson fun child member => leftRead child member levels
          have rightBelow := below?_toJson fun child member => rightRead child member levels
          rw [ofJson?, named]
          simp only [Option.bind_eq_bind, Option.bind_some, kindField, leftField, rightField,
            valueOfJson?_named valueField, leftBelow, rightBelow, Json.ofText, Json.name?,
            Json.Quoted.text?_ofText, kindRead, levels_node]
          by_cases leftFits : levelsBelow left ≤ levels
          · by_cases rightFits : levelsBelow right ≤ levels
            · have fits : max (levelsBelow left) (levelsBelow right) + 1 ≤ levels + 1 := by omega
              simp [leftFits, rightFits, fits]
            · have tooDeep : ¬max (levelsBelow left) (levelsBelow right) + 1 ≤ levels + 1 := by omega
              simp [leftFits, rightFits, tooDeep]
          · have tooDeep : ¬max (levelsBelow left) (levelsBelow right) + 1 ≤ levels + 1 := by omega
            simp [leftFits, tooDeep]

theorem parse?_render (document : Document) :
    parse? document.render = if document.levels ≤ maxLevels then some document else none := by
  rw [parse?, render, Json.parse?_render document.readable_toJson, Option.bind_some, ofJson?_toJson]

/-- A rule is kept in JSON without loss if and only if its document has no longer chain of nodes
than a text may have levels. -/
theorem parse_render_ofRule {text : String} {rule : Rule}
    (read : Rule.parse .strict text = .ok rule) :
    parse? (ofRule rule).render =
      (if (ofRule rule).levels ≤ maxLevels then some (ofRule rule) else none) ∧
    ((ofRule rule).levels ≤ maxLevels →
      (ofRule rule).toRule = .ok rule ∧
      ∀ record, ((ofRule rule).toRule >>= Rule.evaluate record) = rule.evaluate record) := by
  refine ⟨parse?_render (ofRule rule), ?_⟩
  intro fits
  have within : maxLevels ≤ maxNesting + 1 := by decide
  have made : (ofRule rule).toRule = .ok rule :=
    toRuleWithin_ofRule (Rule.joinsRules_of_parse read).2 (Nat.le_trans fits within)
  refine ⟨made, ?_⟩
  intro record
  rw [made, Collection.ok_bind]

theorem parse_render_ofRule_escaped :
    Rule.parse .strict "name = \"O'Brien\"" = .ok (.condition "name" .equal "\"O'Brien\"") ∧
    (ofRule (.condition "name" .equal "\"O'Brien\"")).levels ≤ maxLevels ∧
    (∃ document, parse? (ofRule (.condition "name" .equal "\"O'Brien\"")).render = some document ∧
      document.toRule = .ok (.condition "name" .equal "\"O'Brien\"")) := by
  have read : Rule.parse .strict "name = \"O'Brien\"" =
      .ok (.condition "name" .equal "\"O'Brien\"") := by
    cbv
  have fits : (ofRule (.condition "name" .equal "\"O'Brien\"")).levels ≤ maxLevels := by decide
  obtain ⟨reread, made⟩ := parse_render_ofRule read
  rw [if_pos fits] at reread
  exact ⟨read, fits, _, reread, (made fits).1⟩

/-- A chain of 127 conditions is a rule with 126 junctions below each other, and lost in JSON. -/
theorem parse_render_ofRule_deep :
    ∃ text rule, Joining.chained.join .and (List.replicate 127 "a = 1") = .ok text ∧
      Rule.parse .strict text = .ok rule ∧ (ofRule rule).levels = 128 ∧
      parse? (ofRule rule).render = none := by
  have each : Rule.parse .strict "a = 1" = .ok (.condition "a" .equal "1") := by cbv
  have read := Collection.mapM_replicate each 127
  obtain ⟨whole, chained, outcome⟩ :=
    Joining.parse_join_several .and (by simp) read
  have shallow : chainNesting ((List.replicate 127 "a = 1").map fun text =>
      Token.nesting (Token.split text)) ≤ maxNesting := by
    rw [List.map_replicate]
    decide +kernel
  rw [if_pos shallow] at outcome
  obtain ⟨text, joined, parsed⟩ := Collection.bind_eq_ok_iff.mp outcome
  obtain rfl := Option.some.inj chained
  have deep : (ofRule ((List.replicate 126 (.condition "a" .equal "1")).foldl
      (Rule.junction .and) (.condition "a" .equal "1"))).levels = 128 := by
    decide +kernel
  refine ⟨text, _, joined, parsed, deep, ?_⟩
  rw [parse?_render, deep]
  rfl

end Document

end Rulebook
