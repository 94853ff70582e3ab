import Rulebook.Proofs.Collection
import Rulebook.Report

/-!
What a report says: for each record in turn, and for each number that a rule is given under, what
the last rule given under it comes to on that record.
-/

namespace Rulebook

namespace Outcome

theorem ofResult_eq_decided_iff {result : Except Fault Bool} {holds : Bool} :
    ofResult result = decided holds ↔ result = .ok holds := by
  cases result <;> simp [ofResult]

theorem ofResult_eq_failed_iff {result : Except Fault Bool} {message : String} :
    ofResult result = failed message ↔
      ∃ fault, result = .error fault ∧ fault.message = message := by
  cases result <;> simp [ofResult]

end Outcome

namespace Entry

variable {rules others : List (RuleId × Rule)} {id : RuleId} {rule : Rule}

def lastRule? (rules : List (RuleId × Rule)) (id : RuleId) : Option Rule :=
  rules.reverse.lookup id

theorem mem_of_lastRule? (last : lastRule? rules id = some rule) : (id, rule) ∈ rules := by
  obtain ⟨before, after, split, -⟩ := List.lookup_eq_some_iff.mp last
  rw [← List.mem_reverse, split]
  exact List.mem_append_right before List.mem_cons_self

theorem lastRule?_eq_some (member : (id, rule) ∈ rules)
    (alone : ∀ other, (id, other) ∈ rules → other = rule) : lastRule? rules id = some rule := by
  have given : (lastRule? rules id).isSome :=
    List.lookup_isSome_iff.mpr ⟨(id, rule), List.mem_reverse.mpr member, beq_self_eq_true id⟩
  obtain ⟨last, isLast⟩ := Option.isSome_iff_exists.mp given
  rw [isLast, alone last (mem_of_lastRule? isLast)]

theorem getElem?_outcomes (rules : List (RuleId × Rule)) (record : Record) (id : RuleId) :
    (evaluate rules record).outcomes[id]? =
      (lastRule? rules id).map fun rule => .ofResult (rule.evaluate record) :=
  Collection.getElem?_foldl_insert (fun rule : Rule => Outcome.ofResult (rule.evaluate record)) rules id

theorem evaluate_congr (same : ∀ id, lastRule? rules id = lastRule? others id)
    (record : Record) : evaluate rules record = evaluate others record := by
  have outcomes : (evaluate rules record).outcomes = (evaluate others record).outcomes := by
    apply Std.ExtTreeMap.ext_getElem?
    intro id
    rw [getElem?_outcomes, getElem?_outcomes, same]
  exact congrArg (Entry.mk record) outcomes

end Entry

namespace Report

variable {rules others : List (RuleId × Rule)}

theorem map_record_evaluate (rules : List (RuleId × Rule)) (records : List Record) :
    (evaluate rules records).map Entry.record = records := by
  rw [evaluate, List.map_map]
  exact List.map_id records

theorem evaluate_congr (same : ∀ id, Entry.lastRule? rules id = Entry.lastRule? others id)
    (records : List Record) : evaluate rules records = evaluate others records := by
  apply List.map_congr_left
  intro record _
  exact Entry.evaluate_congr same record

theorem eq_evaluate_of_mem {records : List Record} {entry : Entry}
    (member : entry ∈ evaluate rules records) :
    entry = Entry.evaluate rules entry.record := by
  obtain ⟨record, -, rfl⟩ := List.mem_map.mp member
  rfl

end Report

end Rulebook
