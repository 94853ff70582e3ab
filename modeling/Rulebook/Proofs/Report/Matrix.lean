import Mathlib.Data.List.InsertIdx
import Mathlib.Data.List.Nodup
import Rulebook.Proofs.Report

/-!
Reports as a matrix. The outcome for a record and a number is made of that record and of the last rule
given under that number, and of nothing else. So no other rule and no other record has a part in it,
and the order of rules counts only among those given under one number.
-/

namespace Rulebook

namespace Entry

variable {rules others before after : List (RuleId × Rule)} {id : RuleId} {rule : Rule}

def givenUnder (rules : List (RuleId × Rule)) (id : RuleId) : List (RuleId × Rule) :=
  rules.filter fun given => given.1 == id

theorem lookup_givenUnder (rules : List (RuleId × Rule)) (id : RuleId) :
    (givenUnder rules id).lookup id = rules.lookup id := by
  induction rules with
  | nil => rfl
  | cons given rules ih =>
      obtain ⟨number, rule⟩ := given
      by_cases same : number = id
      · simp [givenUnder, same]
      · have differs : (id == number) = false := beq_eq_false_iff_ne.mpr (Ne.symm same)
        rw [givenUnder, List.filter_cons_of_neg (by simpa using same), List.lookup_cons, differs]
        exact ih

theorem lastRule?_congr (same : givenUnder rules id = givenUnder others id) :
    lastRule? rules id = lastRule? others id := by
  have reversed : givenUnder rules.reverse id = givenUnder others.reverse id := by
    rw [givenUnder, givenUnder, List.filter_reverse, List.filter_reverse]
    exact congrArg List.reverse same
  rw [lastRule?, lastRule?, ← lookup_givenUnder, reversed, lookup_givenUnder]

theorem givenUnder_append (before after : List (RuleId × Rule)) (id : RuleId) :
    givenUnder (before ++ after) id = givenUnder before id ++ givenUnder after id :=
  List.filter_append ..

theorem givenUnder_append_cons_of_ne {given : RuleId × Rule} (differs : given.1 ≠ id) :
    givenUnder (before ++ given :: after) id = givenUnder (before ++ after) id := by
  have left : givenUnder (given :: after) id = givenUnder after id :=
    List.filter_cons_of_neg (by simpa using differs)
  rw [givenUnder_append, left, givenUnder_append]

theorem lastRule?_of_perm (distinct : (rules.map Prod.fst).Nodup) (reordered : others.Perm rules)
    (id : RuleId) : lastRule? others id = lastRule? rules id := by
  have othersDistinct : (others.map Prod.fst).Nodup := (reordered.map Prod.fst).nodup_iff.mpr distinct
  apply Option.ext
  intro rule
  rw [lastRule?, lastRule?, Collection.lookup_reverse_eq_some_iff othersDistinct,
    Collection.lookup_reverse_eq_some_iff distinct, reordered.mem_iff]

theorem lastRule?_eq_none_iff : lastRule? rules id = none ↔ ∀ given ∈ rules, given.1 ≠ id := by
  rw [lastRule?, List.lookup_eq_none_iff]
  simp only [List.mem_reverse, bne_iff_ne, ne_comm]

theorem lastRule?_of_split (apart : ∀ later ∈ after, later.1 ≠ id) :
    lastRule? (before ++ (id, rule) :: after) id = some rule := by
  rw [lastRule?, List.lookup_eq_some_iff]
  refine ⟨after.reverse, before.reverse, by simp, ?_⟩
  intro later member
  exact bne_iff_ne.mpr (apart later (List.mem_reverse.mp member)).symm

theorem mem_outcomes_iff {record : Record} :
    id ∈ (evaluate rules record).outcomes ↔ id ∈ rules.map Prod.fst := by
  rw [Std.ExtTreeMap.mem_iff_isSome_getElem?, getElem?_outcomes, Option.isSome_map,
    Option.isSome_iff_ne_none, ne_eq, lastRule?_eq_none_iff, List.mem_map]
  simp

end Entry

namespace Report

variable {rules others : List (RuleId × Rule)} {records : List Record}

def outcome? (report : Report) (place : Nat) (id : RuleId) : Option Outcome :=
  report[place]?.bind fun entry => entry.outcomes[id]?

theorem getElem?_evaluate (rules : List (RuleId × Rule)) (records : List Record) (place : Nat) :
    (evaluate rules records)[place]? = records[place]?.map (Entry.evaluate rules) :=
  List.getElem?_map

theorem outcome?_evaluate (rules : List (RuleId × Rule)) (records : List Record) (place : Nat)
    (id : RuleId) :
    outcome? (evaluate rules records) place id = records[place]?.bind fun record =>
      (Entry.lastRule? rules id).map fun rule => .ofResult (rule.evaluate record) := by
  rw [outcome?, getElem?_evaluate, Option.bind_map]
  exact congrArg _ (funext fun record => Entry.getElem?_outcomes rules record id)

/-- A report has for each record an outcome for exactly the numbers of the rules, that of the last
rule under each. -/
theorem evaluate_matrix (rules : List (RuleId × Rule)) (records : List Record) :
    (evaluate rules records).length = records.length ∧
    (∀ (place : Nat) record, records[place]? = some record →
      ∃ entry, (evaluate rules records)[place]? = some entry ∧ entry.record = record ∧
        (∀ id, id ∈ entry.outcomes ↔ id ∈ rules.map Prod.fst) ∧
        ∀ before id rule after, rules = before ++ (id, rule) :: after →
          (∀ later ∈ after, later.1 ≠ id) →
          (∀ holds, entry.outcomes[id]? = some (.decided holds) ↔
            rule.evaluate record = .ok holds) ∧
          ∀ message, entry.outcomes[id]? = some (.failed message) ↔
            ∃ fault, rule.evaluate record = .error fault ∧ fault.message = message) ∧
    (∀ others : List (RuleId × Rule), others.Perm rules →
      ((rules.map Prod.fst).Nodup ∨
        ∀ id, Entry.givenUnder others id = Entry.givenUnder rules id) →
      evaluate others records = evaluate rules records) ∧
    (∀ before given after, rules = before ++ given :: after → ∀ place id, id ≠ given.1 →
      outcome? (evaluate (before ++ after) records) place id =
        outcome? (evaluate rules records) place id) ∧
    ∀ place, evaluate rules (records.eraseIdx place) =
      (evaluate rules records).eraseIdx place := by
  refine ⟨List.length_map _, ?_, ?_, ?_, ?_⟩
  · intro place record isRecord
    refine ⟨Entry.evaluate rules record, ?_, rfl, fun id => Entry.mem_outcomes_iff, ?_⟩
    · rw [getElem?_evaluate, isRecord, Option.map_some]
    · rintro before id rule after rfl apart
      simp only [Entry.getElem?_outcomes, Entry.lastRule?_of_split apart, Option.map_some,
        Option.some.injEq, Outcome.ofResult_eq_decided_iff, Outcome.ofResult_eq_failed_iff,
        implies_true, and_self]
  · intro others reordered orders
    apply evaluate_congr
    intro id
    rcases orders with distinct | sameOrder
    · exact Entry.lastRule?_of_perm distinct reordered id
    · exact Entry.lastRule?_congr (sameOrder id)
  · rintro before given after rfl place id differs
    have same : Entry.givenUnder (before ++ given :: after) id = Entry.givenUnder (before ++ after) id :=
      Entry.givenUnder_append_cons_of_ne differs.symm
    rw [outcome?_evaluate, outcome?_evaluate, Entry.lastRule?_congr same]
  · intro place
    exact (List.eraseIdx_map _ records place).symm

theorem evaluate_matrix_repeated :
    let holds := Rule.condition "city" .equal "Rome"
    let fails := Rule.condition "bonus" .greater "100"
    let rules : List (RuleId × Rule) := [(1, fails), (2, holds), (2, fails)]
    let records := [Record.ofList [("bonus", .integer 7)], Record.ofList [("city", .text "Rome")]]
    outcome? (evaluate rules records) 1 2 = some (.failed "Field bonus not found in data") ∧
      evaluate [(2, holds), (1, fails), (2, fails)] records = evaluate rules records ∧
      outcome? (evaluate [(2, holds), (2, fails)] records) 1 2 = outcome? (evaluate rules records) 1 2 ∧
      outcome? (evaluate rules (records.eraseIdx 0)) 0 2 = outcome? (evaluate rules records) 1 2 := by
  intro holds fails rules records
  obtain ⟨-, entries, orders, apart, without⟩ := evaluate_matrix rules records
  obtain ⟨entry, isEntry, -, -, outcomes⟩ := entries 1 _ rfl
  obtain ⟨-, failed⟩ := outcomes [(1, fails), (2, holds)] 2 fails [] rfl (by simp)
  have missing : entry.outcomes[(2 : RuleId)]? = some (.failed "Field bonus not found in data") :=
    (failed _).mpr ⟨.missingField "bonus", rfl, rfl⟩
  refine ⟨?_, ?_, apart [] (1, fails) [(2, holds), (2, fails)] rfl 1 2 (by decide), ?_⟩
  · rw [outcome?, isEntry, Option.bind_some, missing]
  · apply orders _ (List.Perm.swap _ _ _)
    right
    intro id
    by_cases isFirst : (1 : RuleId) = id
    · simp [Entry.givenUnder, rules, ← isFirst]
    · simp [Entry.givenUnder, rules, isFirst, List.filter_cons]
  · rw [without 0]
    rfl

end Report

end Rulebook
