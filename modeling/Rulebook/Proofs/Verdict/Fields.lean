import Mathlib.Data.List.Forall2
import Rulebook.Proofs.Report
import Rulebook.Proofs.Verdict

/-!
What a rule sees of a record: the fields that its conditions name, and no other. Whatever is done to
the other fields, the rule says the same, alone and in a report.
-/

namespace Rulebook

namespace Record

/-- Whether two records give each of some fields one value, or both none. -/
def AgreeOn (fields : List String) (record other : Record) : Prop :=
  ∀ field ∈ fields, record.get? field = other.get? field

def erase (record : Record) (field : String) : Record :=
  ⟨record.fields.erase field⟩

theorem get?_erase (record : Record) (field other : String) :
    (record.erase field).get? other = if field = other then none else record.get? other := by
  simp [erase, get?, Std.ExtTreeMap.getElem?_erase]

inductive Edit where
  | insert (field : String) (value : Value)
  | erase (field : String)

def Edit.field : Edit → String
  | insert field _ => field
  | erase field => field

def edit (record : Record) : Edit → Record
  | .insert field value => record.insert field value
  | .erase field => record.erase field

def edited (record : Record) (edits : List Edit) : Record :=
  edits.foldl edit record

variable {fields : List String} {record other : Record}

theorem get?_edit_of_ne {edit : Edit} {name : String} (differs : edit.field ≠ name) :
    (record.edit edit).get? name = record.get? name := by
  cases edit with
  | insert field value => exact (get?_insert record field name value).trans (if_neg differs)
  | erase field => exact (get?_erase record field name).trans (if_neg differs)

theorem AgreeOn.edit_left {edit : Edit} (agree : record.AgreeOn fields other)
    (apart : edit.field ∉ fields) : (record.edit edit).AgreeOn fields other := by
  intro name member
  have differs : edit.field ≠ name := by
    rintro rfl
    exact apart member
  rw [get?_edit_of_ne differs, agree name member]

theorem AgreeOn.edit (agree : record.AgreeOn fields other) (edit : Edit) :
    (record.edit edit).AgreeOn fields (other.edit edit) := by
  intro name member
  cases edit with
  | insert field value => simp only [Record.edit, get?_insert, agree name member]
  | erase field => simp only [Record.edit, get?_erase, agree name member]

theorem AgreeOn.edited (agree : record.AgreeOn fields other) (edits : List Edit) :
    (record.edited edits).AgreeOn fields
      (other.edited (edits.filter fun edit => edit.field ∈ fields)) := by
  induction edits generalizing record other with
  | nil => exact agree
  | cons edit edits ih =>
      by_cases named : edit.field ∈ fields
      · rw [List.filter_cons_of_pos (by simpa using named)]
        exact ih (agree.edit edit)
      · rw [List.filter_cons_of_neg (by simpa using named)]
        exact ih (agree.edit_left named)

theorem agreeOn_edited {edits : List Edit} (apart : ∀ edit ∈ edits, edit.field ∉ fields)
    (record : Record) : (record.edited edits).AgreeOn fields record := by
  have agree : (record.edited edits).AgreeOn fields
      (record.edited (edits.filter fun edit => edit.field ∈ fields)) :=
    AgreeOn.edited (fun _ _ => rfl) edits
  rwa [List.filter_eq_nil_iff.mpr (by simpa using apart)] at agree

theorem ofList_eq_edited (values : List (String × Value)) :
    ofList values = empty.edited (values.map fun binding => .insert binding.1 binding.2) := by
  rw [Record.edited, List.foldl_map]
  rfl

theorem agreeOn_ofList (fields : List String) (values : List (String × Value)) :
    (ofList values).AgreeOn fields (ofList (values.filter fun binding => binding.1 ∈ fields)) := by
  have agree : (empty.edited _).AgreeOn fields _ :=
    AgreeOn.edited (fun _ _ => rfl) (values.map fun binding => Edit.insert binding.1 binding.2)
  rw [List.filter_map] at agree
  rw [ofList_eq_edited, ofList_eq_edited]
  exact agree

end Record

namespace Rule

variable {rule : Rule} {record other : Record}

def fields : Rule → List String
  | junction _ left right => left.fields ++ right.fields
  | condition field _ _ => [field]
  | term _ => []

theorem evaluate_congr (agree : record.AgreeOn rule.fields other) :
    rule.evaluate record = rule.evaluate other := by
  induction rule with
  | junction connective left right leftIh rightIh =>
      obtain ⟨onLeft, onRight⟩ := List.forall_mem_append.mp agree
      rw [evaluate, evaluate, leftIh onLeft, rightIh onRight]
  | condition field relation literal =>
      rw [evaluate, evaluate, agree field List.mem_cons_self]
  | term text => rfl

end Rule

theorem Entry.outcome_congr {rules : List (RuleId × Rule)} {id : RuleId} {record other : Record}
    (agree : ∀ rule, lastRule? rules id = some rule → record.AgreeOn rule.fields other) :
    (evaluate rules record).outcomes[id]? = (evaluate rules other).outcomes[id]? := by
  rw [getElem?_outcomes, getElem?_outcomes]
  apply Option.map_congr
  intro rule last
  rw [Rule.evaluate_congr (agree rule last)]

theorem Report.outcomes_congr {rules : List (RuleId × Rule)} {id : RuleId}
    {records others : List Record}
    (agree : List.Forall₂ (fun record other => ∀ rule, Entry.lastRule? rules id = some rule →
      record.AgreeOn rule.fields other) records others) :
    (evaluate rules records).map (fun entry => entry.outcomes[id]?) =
      (evaluate rules others).map fun entry => entry.outcomes[id]? := by
  induction agree with
  | nil => rfl
  | cons first _ ih => exact congrArg₂ List.cons (Entry.outcome_congr first) ih

/-- A rule says the same of records that agree on the fields it names. -/
theorem Rule.evaluate_agreeOn :
    (∀ (rule : Rule) (record other : Record), record.AgreeOn rule.fields other →
      rule.evaluate record = rule.evaluate other) ∧
    (∀ (rule : Rule) (record : Record) (edits : List Record.Edit),
      (∀ edit ∈ edits, edit.field ∉ rule.fields) →
      (record.edited edits).AgreeOn rule.fields record ∧
        rule.evaluate (record.edited edits) = rule.evaluate record) ∧
    (∀ (rule : Rule) (values : List (String × Value)),
      rule.evaluate (.ofList values) =
        rule.evaluate (.ofList (values.filter fun binding => binding.1 ∈ rule.fields))) ∧
    ∀ (rules : List (RuleId × Rule)) (id : RuleId) (records others : List Record),
      List.Forall₂ (fun record other => ∀ rule, Entry.lastRule? rules id = some rule →
        record.AgreeOn rule.fields other) records others →
      (Report.evaluate rules records).map (fun entry => entry.outcomes[id]?) =
        (Report.evaluate rules others).map fun entry => entry.outcomes[id]? := by
  refine ⟨?_, ?_, ?_, ?_⟩
  · intro rule record other agree
    exact evaluate_congr agree
  · intro rule record edits apart
    have agree := Record.agreeOn_edited apart record
    exact ⟨agree, evaluate_congr agree⟩
  · intro rule values
    exact evaluate_congr (Record.agreeOn_ofList rule.fields values)
  · intro rules id records others agree
    exact Report.outcomes_congr agree

theorem Rule.evaluate_agreeOn_erased :
    let rule := condition "a" .equal "x"
    let other := condition "b" .equal "y"
    let record := Record.ofList [("b", .text "z"), ("a", .text "x")]
    let edits := [.erase "b", .insert "c" (.text "y"), .insert "b" (.text "y"), .erase "c"]
    (∀ edit ∈ edits, edit.field ∉ rule.fields) ∧
      rule.evaluate (record.edited edits) = rule.evaluate record ∧
      ((Report.evaluate [(1, other), (2, other), (1, rule)] [record.edited edits]).map fun entry =>
          entry.outcomes[(1 : RuleId)]?) =
        (Report.evaluate [(1, other), (2, other), (1, rule)] [record]).map fun entry =>
          entry.outcomes[(1 : RuleId)]? := by
  intro rule other record edits
  have apart : ∀ edit ∈ edits, edit.field ∉ rule.fields := by
    simp [edits, rule, fields, Record.Edit.field]
  obtain ⟨-, keeps, -, reports⟩ := evaluate_agreeOn
  obtain ⟨agree, same⟩ := keeps rule record edits apart
  refine ⟨apart, same, reports _ 1 _ _ (.cons ?_ .nil)⟩
  intro last isLast
  obtain rfl : rule = last := Option.some.inj isLast
  exact agree

end Rulebook
