import Rulebook.Proofs.Host.Dictionary
import Rulebook.Proofs.Host.Session
import Rulebook.Proofs.Report.Matrix

/-!
Reports as the host program gets them. A report says of each rule and each record what the host is
told when it has this rule evaluated on this record, with a fault as a text; and it lists numbers and
fields in their order, whatever the order of the dictionaries that it was made of.
-/

namespace Rulebook.Host

open Object (DistinctKeys ofValue)

/-- Whether an outcome in a report says what the host is told of the rule by itself. -/
inductive Agrees : Except Failure Reply → Object → Prop
  | decided (holds : Bool) : Agrees (.ok (.truth holds)) (.bool holds)
  | failed (fault : Fault) : Agrees (.error (.ofFault fault)) (.text fault.message)

structure Answer where
  fields : List (String × Object)
  outcomes : List (Int × Object)

namespace Answer

def toObject (answer : Answer) : Object :=
  .dict
    [(.text "data", .dict (answer.fields.map fun field => (.text field.1, field.2))),
      (.text "results", .dict (answer.outcomes.map fun outcome => (.int outcome.1, outcome.2)))]

structure IsFor (session : Session) (rules given : List (Object × Object)) (answer : Answer) :
    Prop where
  fieldsInOrder : answer.fields.Pairwise fun field later => Text.bytes field.1 < Text.bytes later.1
  mem_fields : ∀ name value, (name, value) ∈ answer.fields ↔
    ∃ held, (.text name, held) ∈ given ∧ value = held.counted
  numbersInOrder : answer.outcomes.Pairwise fun outcome later => outcome.1 < later.1
  mem_numbers : ∀ number, (∃ outcome, (number, outcome) ∈ answer.outcomes) ↔
    ∃ item ∈ rules, item.1.int? = some number
  agrees : ∀ item ∈ rules, ∀ number, item.1.int? = some number →
    ∃ outcome, (number, outcome) ∈ answer.outcomes ∧
      Agrees (session.step .evaluate [item.2, .dict given]).1 outcome

def ofEntry (entry : Entry) : Answer where
  fields := entry.record.toList.map fun binding => (binding.1, ofValue binding.2)
  outcomes := entry.outcomes.toList.map fun outcome =>
    ((outcome.1.toNat : Int), .ofOutcome outcome.2)

theorem toObject_ofEntry (entry : Entry) : (ofEntry entry).toObject = .ofEntry entry := by
  rw [toObject, ofEntry, List.map_map, List.map_map]
  rfl

theorem mem_outcomes_ofEntry_iff {entry : Entry} {number : Int} {outcome : Object} :
    (number, outcome) ∈ (ofEntry entry).outcomes ↔ ∃ (id : RuleId) (said : Outcome),
      entry.outcomes[id]? = some said ∧ (id.toNat : Int) = number ∧ .ofOutcome said = outcome := by
  simp only [ofEntry, List.mem_map, Prod.exists, Prod.mk.injEq,
    Std.ExtTreeMap.mem_toList_iff_getElem?_eq_some]

theorem toObject_report (report : Report) :
    (Reply.report report).toObject = .list ((report.map ofEntry).map toObject) := by
  rw [Reply.toObject, Object.ofReport, List.map_map]
  exact congrArg Object.list (List.map_congr_left fun entry _ => (toObject_ofEntry entry).symm)

end Answer

theorem Failure.message_ofFault (fault : Fault) : (ofFault fault).message = some fault.message := by
  cases fault <;> rfl

theorem Agrees.eq_text {fault : Fault} {outcome : Object}
    (agrees : Agrees (.error (.ofFault fault)) outcome) : outcome = .text fault.message := by
  generalize answered : Except.error (Failure.ofFault fault) = answer at agrees
  cases agrees with
  | decided holds => cases answered
  | failed other =>
      have worded := congrArg Failure.message (Except.error.inj answered)
      rw [Failure.message_ofFault, Failure.message_ofFault] at worded
      rw [Option.some.inj worded]

theorem agrees_evaluate {session : Session} {object data : Object} {rule : Rule} {record : Record}
    (isRule : readRule object = .ok rule) (isRecord : readRecord data = .ok record) :
    Agrees (session.step .evaluate [object, data]).1 (.ofOutcome (.ofResult (rule.evaluate record))) := by
  rw [Session.step_evaluate, isRule, isRecord]
  simp only [Collection.ok_bind]
  cases rule.evaluate record with
  | ok holds => exact .decided holds
  | error fault => exact .failed fault

section

variable (session : Session) {rules given : List (Object × Object)}
  {numbered : List (RuleId × Rule)} {record : Record}

theorem exists_outcome_agrees (distinct : DistinctKeys rules) (read : readRules rules = .ok numbered)
    (isRecord : readRecord (.dict given) = .ok record) {item : Object × Object} (member : item ∈ rules)
    {number : Int} (isNumber : item.1.int? = some number) :
    ∃ outcome, (number, outcome) ∈ (Answer.ofEntry (.evaluate numbered record)).outcomes ∧
      Agrees (session.step .evaluate [item.2, .dict given]).1 outcome := by
  obtain ⟨⟨id, rule⟩, isGiven, isItem⟩ := Collection.exists_value_of_mem (readRules_eq rules ▸ read) member
  obtain ⟨isId, isRule⟩ := readItem_eq_ok_iff.mp isItem
  have last : Entry.lastRule? numbered id = some rule :=
    (Collection.lookup_reverse_eq_some_iff (nodup_of_readRules distinct read)).mpr isGiven
  rw [int?_of_readId isId] at isNumber
  refine ⟨_, Answer.mem_outcomes_ofEntry_iff.mpr ⟨id, _, ?_, Option.some.inj isNumber, rfl⟩,
    agrees_evaluate isRule isRecord⟩
  rw [Entry.getElem?_outcomes, last, Option.map_some]

theorem isFor_ofEntry (distinct : DistinctKeys rules) (read : readRules rules = .ok numbered)
    (distinctFields : DistinctKeys given) (isRecord : readRecord (.dict given) = .ok record) :
    (Answer.ofEntry (.evaluate numbered record)).IsFor session rules given where
  fieldsInOrder := List.pairwise_map.mpr record.pairwise_bytes_toList
  mem_fields := by
    intro name value
    simp only [Answer.ofEntry, Entry.evaluate, List.mem_map, Prod.exists, Prod.mk.injEq,
      mem_toList_of_readRecord distinctFields isRecord]
    constructor
    · rintro ⟨_, number, ⟨held, member, isValue⟩, rfl, rfl⟩
      exact ⟨held, member, ofValue_of_readValue isValue⟩
    · rintro ⟨held, member, rfl⟩
      obtain ⟨value, isValue⟩ := exists_readValue isRecord member
      exact ⟨name, value, ⟨held, member, isValue⟩, rfl, ofValue_of_readValue isValue⟩
  numbersInOrder := by
    have ordered : (Entry.evaluate numbered record).outcomes.toList.Pairwise
        fun outcome later => compare outcome.1 later.1 = .lt :=
      Std.ExtTreeMap.ordered_keys_toList
    refine List.pairwise_map.mpr (ordered.imp ?_)
    intro outcome later below
    exact Int.ofNat_lt.mpr (UInt64.lt_iff_toNat_lt.mp (compareOfLessAndEq_eq_lt.mp below))
  mem_numbers := by
    intro number
    constructor
    · rintro ⟨outcome, member⟩
      obtain ⟨id, said, isSaid, rfl, -⟩ := Answer.mem_outcomes_ofEntry_iff.mp member
      rw [Entry.getElem?_outcomes] at isSaid
      obtain ⟨rule, last, -⟩ := Option.map_eq_some_iff.mp isSaid
      obtain ⟨item, isItem, isId, -⟩ := (mem_readRules_iff read).mp (Entry.mem_of_lastRule? last)
      exact ⟨item, isItem, int?_of_readId isId⟩
    · rintro ⟨item, member, isNumber⟩
      obtain ⟨outcome, isOutcome, -⟩ :=
        exists_outcome_agrees session distinct read isRecord member isNumber
      exact ⟨outcome, isOutcome⟩
  agrees item member number isNumber :=
    exists_outcome_agrees session distinct read isRecord member isNumber

theorem forall₂_isFor {data : List (List (Object × Object))} {records : List Record}
    (distinct : DistinctKeys rules) (read : readRules rules = .ok numbered)
    (distinctFields : ∀ given ∈ data, DistinctKeys given)
    (readRecords : (data.map .dict).mapM readRecord = .ok records) :
    List.Forall₂ (fun given answer => answer.IsFor session rules given) data
      ((Report.evaluate numbered records).map Answer.ofEntry) := by
  have each := Collection.mapM_eq_ok_iff_forall₂.mp readRecords
  rw [List.forall₂_map_left_iff] at each
  rw [Report.evaluate, List.map_map, List.forall₂_map_right_iff]
  refine ((List.forall₂_and_left _ _).mpr ⟨distinctFields, each⟩).imp ?_
  rintro given record ⟨distinctGiven, isRecord⟩
  exact isFor_ofEntry session distinct read distinctGiven isRecord

end

theorem step_report_of_perm (session : Session) {rules others : List (Object × Object)}
    {numbered : List (RuleId × Rule)} {objects : List Object} {records : List Record}
    (distinct : DistinctKeys rules) (read : readRules rules = .ok numbered)
    (readObjects : objects.mapM readRecord = .ok records) (reordered : others.Perm rules) :
    session.step .report [.dict others, .list objects] =
      (.ok (.report (.evaluate numbered records)), session) := by
  obtain ⟨otherRules, readOthers, perm⟩ :=
    Collection.exists_perm_of_mapM (readRules_eq rules ▸ read) reordered
  have same : Report.evaluate otherRules records = Report.evaluate numbered records :=
    Report.evaluate_congr (Entry.lastRule?_of_perm (nodup_of_readRules distinct read) perm) records
  rw [session.step_report_of_read readOthers readObjects, same]

/-- A report says of each record what evaluating each rule by itself says, and fails as the first
rule that is refused. -/
theorem step_report_agrees (session : Session) (rules : List (Object × Object)) :
    (DistinctKeys rules → (∀ item ∈ rules, Accepted item) → ∀ data : List (List (Object × Object)),
      (∀ given ∈ data, DistinctKeys given ∧ ∃ record, readRecord (.dict given) = .ok record) →
      ∃ reply answers,
        session.step .report [.dict rules, .list (data.map .dict)] = (.ok reply, session) ∧
        reply.toObject = .list (answers.map Answer.toObject) ∧
        List.Forall₂ (fun given answer => answer.IsFor session rules given) data answers ∧
        ∀ others, others.Perm rules →
          session.step .report [.dict others, .list (data.map .dict)] = (.ok reply, session)) ∧
    ((∃ item ∈ rules, ¬Accepted item) → ∃ before item after failure,
      rules = before ++ item :: after ∧ (∀ earlier ∈ before, Accepted earlier) ∧
      Refused item failure ∧ ∀ data : List Object,
        session.step .report [.dict rules, .list data] = (.error failure, session)) := by
  constructor
  · intro distinct accepted data readable
    obtain ⟨numbered, read⟩ := exists_readRules accepted
    obtain ⟨records, readRecords⟩ := Collection.exists_values_of_forall
      (List.forall_mem_map.mpr fun given member => (readable given member).2)
    refine ⟨_, _, session.step_report_of_read read readRecords, Answer.toObject_report _, ?_, ?_⟩
    · exact forall₂_isFor session distinct read (fun given member => (readable given member).1) readRecords
    · exact fun others => step_report_of_perm session distinct read readRecords
  · intro invalid
    obtain ⟨before, item, after, failure, split, accepted, refused, failed⟩ := exists_refused invalid
    refine ⟨before, item, after, failure, split, accepted, refused, ?_⟩
    intro data
    rw [Session.step_report, failed, Collection.error_bind]

theorem step_report_agrees_mixed :
    let city := Object.ofDocument (.ofRule (.condition "city" .equal "Rome"))
    let age := Object.ofDocument (.ofRule (.condition "age" .greater "high"))
    let items := [(.bool true, city), (.int 0, city), (.int 1, age)]
    let given := [(.text "vip", .bool false), (.text "city", .text "Rome"), (.text "age", .int 41)]
    (∃ reply, ∃ answer : Answer,
      Session.step {} .report [.ofItems items, .list [.dict given]] = (.ok reply, {}) ∧
      reply.toObject = .list [answer.toObject] ∧
      ("vip", .int 0) ∈ answer.fields ∧ (0, .bool true) ∈ answer.outcomes ∧
      (1, .text "Cannot compare numeric field 'age' with non-numeric value 'high'") ∈ answer.outcomes ∧
      Session.step {} .report [.dict [(.int 0, city), (.bool true, age)], .list [.dict given]] =
        (.ok reply, {})) ∧
    ∀ data, Session.step {} .report
      [.dict [(.int (-1), .none), (.text "1", city)], .list data] = (.error .overflow, {}) := by
  intro city age items given
  let rules : List (Object × Object) := [(.bool true, age), (.int 0, city)]
  have differ := Object.sameKey_of_int? (rfl : Object.int? (.bool true) = some 1)
    (rfl : Object.int? (.int 0) = some 0)
  have same := Object.sameKey_of_int? (rfl : Object.int? (.bool true) = some 1)
    (rfl : Object.int? (.int 1) = some 1)
  have made : Object.ofItems items = .dict rules := by
    simp [Object.ofItems, Object.setItem, items, rules, differ, same]
  have accepted : ∀ item ∈ rules, Accepted item := by
    simp only [rules, List.forall_mem_cons]
    exact ⟨⟨⟨1, rfl, by decide⟩, _, rfl⟩, ⟨⟨0, rfl, by decide⟩, _, rfl⟩, by simp⟩
  obtain ⟨kept, isDict, distinct⟩ := Object.exists_distinctKeys_ofItems items
  obtain rfl : kept = rules := Object.dict.inj (isDict.symm.trans made)
  have readable : ∀ fields ∈ [given], DistinctKeys fields ∧
      ∃ record, readRecord (.dict fields) = .ok record := by
    simp only [List.forall_mem_singleton]
    exact ⟨by simp [DistinctKeys, given], _, rfl⟩
  have cityHolds : (Session.step {} .evaluate [city, .dict given]).1 = .ok (.truth true) := by
    rfl
  have ageFails : (Session.step {} .evaluate [age, .dict given]).1 =
      .error (.ofFault (.notNumeric "age" "high")) := by
    rfl
  constructor
  · obtain ⟨reply, answers, answered, shown, each, reordered⟩ :=
      (step_report_agrees {} rules).1 distinct accepted [given] readable
    obtain ⟨answer, _, isFor, none, rfl⟩ := List.forall₂_cons_left_iff.mp each
    obtain rfl := List.forall₂_nil_left_iff.mp none
    obtain ⟨holds, isHolds, cityAgrees⟩ := isFor.agrees (.int 0, city) (by simp [rules]) 0 rfl
    obtain ⟨failed, isFailed, ageAgrees⟩ := isFor.agrees (.bool true, age) (by simp [rules]) 1 rfl
    rw [cityHolds] at cityAgrees
    rw [ageFails] at ageAgrees
    cases cityAgrees
    obtain rfl := ageAgrees.eq_text
    refine ⟨reply, answer, made ▸ answered, shown, ?_, isHolds, isFailed, ?_⟩
    · exact (isFor.mem_fields "vip" _).mpr ⟨_, List.mem_cons_self, rfl⟩
    · exact reordered _ (List.Perm.swap _ _ _)
  · intro data
    have negative : ¬(Object.int (-1)).IsNumber := by
      rintro ⟨_, ⟨⟩, natural, -⟩
      exact absurd natural (by decide)
    obtain ⟨before, item, after, failure, split, accepted, refused, answered⟩ :=
      (step_report_agrees {} [(.int (-1), .none), (.text "1", city)]).2
        ⟨_, List.mem_cons_self, fun accepted => negative accepted.1⟩
    cases before with
    | nil =>
        obtain ⟨rfl, -⟩ := List.cons.inj split
        cases refused with
        | notWhole notWhole => cases notWhole
        | beyond => exact answered data
        | notRule isNumber => exact absurd isNumber negative
    | cons first before =>
        obtain ⟨rfl, -⟩ := List.cons.inj split
        exact absurd (accepted _ List.mem_cons_self).1 negative

end Rulebook.Host
