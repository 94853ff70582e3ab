import Rulebook.Verdict
import Rulebook.Json.Parser
import Rulebook.Json.Printer

/-!
Reports: what many rules say of many records, one entry a record. A rule that fails on a record has
its fault reported and keeps no other rule from being evaluated.
-/

namespace Rulebook

inductive Outcome where
  | decided (holds : Bool)
  | failed (message : String)
deriving DecidableEq, Repr

/-- A record, with what each rule says of it by the number of the rule. -/
structure Entry where
  record : Record
  outcomes : Std.ExtTreeMap RuleId Outcome

abbrev Report := List Entry

namespace Outcome

def ofResult : Except Fault Bool → Outcome
  | .ok holds => decided holds
  | .error fault => failed fault.message

def isFailure : Outcome → Bool
  | decided _ => false
  | failed _ => true

def toJson : Outcome → Json
  | decided holds => .bool holds
  | failed message => .ofText message

def ofJson? : Json → Option Outcome
  | .bool holds => some (decided holds)
  | .string written => written.text?.map failed
  | _ => none

end Outcome

namespace RuleId

def text (id : RuleId) : String :=
  String.ofList (Number.Digit.chars id.toNat)

def digits? (written : Json.Quoted) : Option (List Number.Digit) :=
  written.mapM fun
    | .plain char => Number.Digit.ofChar? char
    | .escaped _ => none

def ofName? (written : Json.Quoted) : Option RuleId := do
  let digits ← digits? written
  let value := Number.Digit.value digits
  if (Number.Digit.chars value).map .plain = written ∧ value < UInt64.size then
    some value.toUInt64
  else none

end RuleId

namespace Entry

/-- What the rules say of a record, where of several with one number the last one counts. -/
def evaluate (rules : List (RuleId × Rule)) (record : Record) : Entry where
  record := record
  outcomes := rules.foldl
    (fun outcomes (id, rule) => outcomes.insert id (.ofResult (rule.evaluate record))) ∅

def toJson (entry : Entry) : Json :=
  .object
    [(.ofText "data", entry.record.toJson),
      (.ofText "results", .object (entry.outcomes.toList.map fun (id, outcome) =>
        (.ofText (RuleId.text id), outcome.toJson)))]

def outcomesOfJson? : Json → Option (Std.ExtTreeMap RuleId Outcome)
  | .object members => do
      let outcomes ← members.mapM fun (written, value) => do
        return (← RuleId.ofName? written, ← Outcome.ofJson? value)
      return outcomes.foldl (fun outcomes (id, outcome) => outcomes.insert id outcome) ∅
  | _ => none

def ofJson? (readFloat : Json.FloatReader) (value : Json) : Option Entry := do
  let fields ← value.fields? 2
  let record ← Record.ofJson? readFloat (← (← fields.find? 0 "data"))
  let outcomes ← outcomesOfJson? (← (← fields.find? 1 "results"))
  return ⟨record, outcomes⟩

end Entry

namespace Report

def evaluate (rules : List (RuleId × Rule)) (records : List Record) : Report :=
  records.map (Entry.evaluate rules)

def toJson (report : Report) : Json :=
  .array (report.map Entry.toJson)

def render (report : Report) : String :=
  report.toJson.render

def parse? (text : String) (readFloat : Json.FloatReader := Json.Numeral.toBinary64?) :
    Option Report := do
  match ← Json.parse? text with
  | .array entries => entries.mapM (Entry.ofJson? readFloat)
  | _ => none

end Report

end Rulebook
