import Rulebook.Proofs.Catalogue.Join
import Rulebook.Proofs.Report

/-!
Reports on kept rules. A report is made as a whole or not at all, and says of each record and each
number what evaluating the rule under that number says.
-/

namespace Rulebook.Catalogue

variable {catalogue : Catalogue} {ids others : List RuleId} {id : RuleId} {fault : Fault}
variable {rules : List (RuleId × Rule)} {rule : Rule} {report : Report}

/-- Whether a number is the first of several under which nothing is kept. -/
def FirstUnknown (catalogue : Catalogue) (ids : List RuleId) (id : RuleId) : Prop :=
  ∃ before after, ids = before ++ id :: after ∧
    (∀ earlier ∈ before, ∃ kept, catalogue.find earlier = .ok kept) ∧
    catalogue.find id = .error (.unknownRule id)

theorem find_eq_error_iff :
    catalogue.find id = .error fault ↔
      catalogue.find id = .error (.unknownRule id) ∧ fault = .unknownRule id := by
  rw [find]
  cases catalogue.rules[id]? <;> simp [eq_comm]

theorem mapM_find_eq_error_iff :
    ids.mapM catalogue.find = .error fault ↔
      ∃ id, catalogue.FirstUnknown ids id ∧ fault = .unknownRule id := by
  rw [Collection.mapM_eq_error_iff]
  constructor
  · rintro ⟨before, id, after, split, known, missing⟩
    obtain ⟨unknown, isUnknown⟩ := find_eq_error_iff.mp missing
    exact ⟨id, ⟨before, after, split, known, unknown⟩, isUnknown⟩
  · rintro ⟨id, ⟨before, after, split, known, unknown⟩, rfl⟩
    exact ⟨before, id, after, split, known, unknown⟩

def select (catalogue : Catalogue) (id : RuleId) : Except Fault (RuleId × Rule) :=
  (catalogue.find id).map fun kept => (id, kept.rule)

theorem report_eq (catalogue : Catalogue) (ids : List RuleId) (records : List Record) :
    catalogue.report ids records =
      (ids.mapM catalogue.select >>= fun rules => .ok (Report.evaluate rules records)) := rfl

theorem select_eq_ok_iff {number : RuleId} :
    catalogue.select number = .ok (id, rule) ↔
      number = id ∧ ∃ kept, catalogue.find id = .ok kept ∧ kept.rule = rule := by
  rw [select, Collection.map_eq_ok_iff]
  constructor
  · rintro ⟨kept, found, same⟩
    obtain ⟨rfl, rfl⟩ := Prod.mk.inj same
    exact ⟨rfl, kept, found, rfl⟩
  · rintro ⟨rfl, kept, found, rfl⟩
    exact ⟨kept, found, rfl⟩

theorem select_eq_error_iff :
    catalogue.select id = .error fault ↔ catalogue.find id = .error fault := by
  rw [select, Collection.map_eq_error_iff]

theorem exists_select_iff :
    (∃ given, catalogue.select id = .ok given) ↔ ∃ kept, catalogue.find id = .ok kept := by
  constructor
  · rintro ⟨⟨number, rule⟩, selected⟩
    obtain ⟨rfl, kept, found, -⟩ := select_eq_ok_iff.mp selected
    exact ⟨kept, found⟩
  · rintro ⟨kept, found⟩
    exact ⟨(id, kept.rule), select_eq_ok_iff.mpr ⟨rfl, kept, found, rfl⟩⟩

theorem mapM_select_eq_error_iff :
    ids.mapM catalogue.select = .error fault ↔
      ∃ id, catalogue.FirstUnknown ids id ∧ fault = .unknownRule id := by
  rw [← mapM_find_eq_error_iff, Collection.mapM_eq_error_iff, Collection.mapM_eq_error_iff]
  simp only [exists_select_iff, select_eq_error_iff]

theorem mem_selected_iff (selected : ids.mapM catalogue.select = .ok rules) :
    (id, rule) ∈ rules ↔
      id ∈ ids ∧ ∃ kept, catalogue.find id = .ok kept ∧ kept.rule = rule := by
  constructor
  · intro member
    obtain ⟨number, isAsked, isSelected⟩ := Collection.exists_item_of_mem selected member
    obtain ⟨rfl, found⟩ := select_eq_ok_iff.mp isSelected
    exact ⟨isAsked, found⟩
  · rintro ⟨isAsked, kept, found, rfl⟩
    obtain ⟨⟨number, rule⟩, member, isSelected⟩ := Collection.exists_value_of_mem selected isAsked
    obtain ⟨rfl, other, foundOther, rfl⟩ := select_eq_ok_iff.mp isSelected
    obtain rfl := Except.ok.inj (found.symm.trans foundOther)
    exact member

theorem lastRule?_selected (selected : ids.mapM catalogue.select = .ok rules) :
    Entry.lastRule? rules id = some rule ↔
      id ∈ ids ∧ ∃ kept, catalogue.find id = .ok kept ∧ kept.rule = rule := by
  rw [← mem_selected_iff selected]
  constructor
  · exact Entry.mem_of_lastRule?
  · intro member
    apply Entry.lastRule?_eq_some member
    intro other memberOther
    obtain ⟨-, kept, found, rfl⟩ := (mem_selected_iff selected).mp member
    obtain ⟨-, keptOther, foundOther, rfl⟩ := (mem_selected_iff selected).mp memberOther
    rw [Except.ok.inj (found.symm.trans foundOther)]

theorem getElem?_outcomes_selected (selected : ids.mapM catalogue.select = .ok rules)
    (record : Record) {outcome : Outcome} :
    (Entry.evaluate rules record).outcomes[id]? = some outcome ↔
      id ∈ ids ∧ outcome = .ofResult (catalogue.evaluate id record) := by
  rw [Entry.getElem?_outcomes, Option.map_eq_some_iff]
  simp only [lastRule?_selected selected]
  constructor
  · rintro ⟨rule, ⟨isAsked, kept, found, rfl⟩, rfl⟩
    exact ⟨isAsked, by rw [evaluate_of_find found]⟩
  · rintro ⟨isAsked, rfl⟩
    obtain ⟨given, -, isSelected⟩ := Collection.exists_value_of_mem selected isAsked
    obtain ⟨kept, found⟩ := exists_select_iff.mp ⟨given, isSelected⟩
    exact ⟨kept.rule, ⟨isAsked, kept, found, rfl⟩, by rw [evaluate_of_find found]⟩

theorem report_eq_ok_iff {records : List Record} :
    catalogue.report ids records = .ok report ↔
      ∃ rules, ids.mapM catalogue.select = .ok rules ∧ report = Report.evaluate rules records := by
  rw [report_eq, Collection.bind_eq_ok_iff]
  simp only [Except.ok.injEq, eq_comm]

theorem report_eq_error_iff {records : List Record} :
    catalogue.report ids records = .error fault ↔
      ∃ id, catalogue.FirstUnknown ids id ∧ fault = .unknownRule id := by
  rw [report_eq, Collection.bind_eq_error_iff, ← mapM_select_eq_error_iff]
  simp

theorem exists_report_iff {records : List Record} :
    (∃ report, catalogue.report ids records = .ok report) ↔
      ∀ id ∈ ids, ∃ kept, catalogue.find id = .ok kept := by
  constructor
  · rintro ⟨report, made⟩ id isAsked
    obtain ⟨rules, selected, -⟩ := report_eq_ok_iff.mp made
    obtain ⟨given, -, isSelected⟩ := Collection.exists_value_of_mem selected isAsked
    exact exists_select_iff.mp ⟨given, isSelected⟩
  · intro known
    obtain ⟨rules, selected⟩ := Collection.exists_values_of_forall fun id isAsked =>
      exists_select_iff.mpr (known id isAsked)
    exact ⟨_, report_eq_ok_iff.mpr ⟨rules, selected, rfl⟩⟩

theorem report_congr {records : List Record} (same : ∀ id, id ∈ others ↔ id ∈ ids)
    (made : catalogue.report ids records = .ok report) :
    catalogue.report others records = .ok report := by
  have known := exists_report_iff.mp ⟨report, made⟩
  obtain ⟨rules, selected, rfl⟩ := report_eq_ok_iff.mp made
  obtain ⟨otherReport, otherMade⟩ := exists_report_iff.mpr fun id isAsked =>
    known id ((same id).mp isAsked)
  obtain ⟨otherRules, otherSelected, rfl⟩ := report_eq_ok_iff.mp otherMade
  rw [otherMade]
  apply congrArg Except.ok
  apply Report.evaluate_congr
  intro id
  apply Option.ext
  intro rule
  rw [lastRule?_selected otherSelected, lastRule?_selected selected, same]

/-- A report has an outcome for exactly the numbers asked for, or fails for the first of them that
nothing is kept under. -/
theorem report_evaluate (policy : Policy) (requests : List Request) (ids : List RuleId)
    (records : List Record) :
    let catalogue := reached policy requests
    (∀ fault, catalogue.report ids records = .error fault ↔
      ∃ id, catalogue.FirstUnknown ids id ∧ fault = .unknownRule id) ∧
    ((∃ report, catalogue.report ids records = .ok report) ↔
      ∀ id ∈ ids, ∃ kept, catalogue.find id = .ok kept) ∧
    ∀ report, catalogue.report ids records = .ok report →
      report.map Entry.record = records ∧
      (∀ entry ∈ report, ∀ id,
        (id ∈ entry.outcomes ↔ id ∈ ids) ∧
        (∀ holds, entry.outcomes[id]? = some (.decided holds) ↔
          id ∈ ids ∧ catalogue.evaluate id entry.record = .ok holds) ∧
        ∀ message, entry.outcomes[id]? = some (.failed message) ↔
          id ∈ ids ∧ ∃ fault, catalogue.evaluate id entry.record = .error fault ∧
            fault.message = message) ∧
      ∀ others, (∀ id, id ∈ others ↔ id ∈ ids) →
        catalogue.report others records = .ok report := by
  intro catalogue
  refine ⟨fun fault => report_eq_error_iff, exists_report_iff, ?_⟩
  intro report made
  obtain ⟨rules, selected, rfl⟩ := report_eq_ok_iff.mp made
  refine ⟨Report.map_record_evaluate rules records, ?_, fun others same => report_congr same made⟩
  intro entry member id
  rw [Report.eq_evaluate_of_mem member]
  refine ⟨?_, fun holds => ?_, fun message => ?_⟩
  · rw [Std.ExtTreeMap.mem_iff_isSome_getElem?, Option.isSome_iff_exists]
    simp only [getElem?_outcomes_selected selected]
    exact ⟨fun ⟨_, isAsked, _⟩ => isAsked, fun isAsked => ⟨_, isAsked, rfl⟩⟩
  · rw [getElem?_outcomes_selected selected, eq_comm, Outcome.ofResult_eq_decided_iff]
    rfl
  · rw [getElem?_outcomes_selected selected, eq_comm, Outcome.ofResult_eq_failed_iff]
    rfl

theorem report_evaluate_repeated :
    let catalogue := reached {} [.add "a" "" "city = Rome", .add "b" "" "bonus > 100"]
    let record := Record.ofList [("city", .text "Rome")]
    ∃ report, catalogue.report [2, 1, 2] [record] = .ok report ∧
      catalogue.report [1, 2] [record] = .ok report ∧ report.map Entry.record = [record] ∧
      ∀ entry ∈ report,
        entry.outcomes[(1 : RuleId)]? = some (.decided true) ∧
        entry.outcomes[(2 : RuleId)]? = some (.failed "Field bonus not found in data") := by
  intro catalogue record
  obtain ⟨-, known, whole⟩ := report_evaluate {}
    [.add "a" "" "city = Rome", .add "b" "" "bonus > 100"] [2, 1, 2] [record]
  obtain ⟨first, foundFirst⟩ : ∃ kept, catalogue.find 1 = .ok kept := ⟨_, rfl⟩
  obtain ⟨second, foundSecond⟩ : ∃ kept, catalogue.find 2 = .ok kept := ⟨_, rfl⟩
  have holds : catalogue.evaluate 1 record = .ok true := by rfl
  have fails : catalogue.evaluate 2 record = .error (.missingField "bonus") := by rfl
  obtain ⟨report, made⟩ := known.mpr (by simp [foundFirst, foundSecond, catalogue])
  obtain ⟨records, outcomes, reordered⟩ := whole report made
  refine ⟨report, made, reordered [1, 2] (by simp), records, ?_⟩
  intro entry member
  have isRecord : entry.record = record := by
    have isAny := List.mem_map_of_mem (f := Entry.record) member
    rw [records] at isAny
    exact List.mem_singleton.mp isAny
  have outcomes := outcomes entry member
  rw [isRecord] at outcomes
  constructor
  · exact ((outcomes 1).2.1 true).mpr ⟨by simp, holds⟩
  · exact ((outcomes 2).2.2 _).mpr ⟨by simp, _, fails, rfl⟩

end Rulebook.Catalogue
