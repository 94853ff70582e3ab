import Rulebook.Proofs.Document.Basic
import Rulebook.Verdict

/-!
What can go wrong when a rule is asked of a record. A rule fails for a leaf of its own; one that joins
rules only fails for the record or for a literal in it, never for its form.
-/

namespace Rulebook

open Number

inductive Fault.OfData : Fault → Prop
  | missingField (field : String) : OfData (.missingField field)
  | notNumeric (field text : String) : OfData (.notNumeric field text)

theorem readNumber_eq_ok_iff {field literal : String} {number : Binary64} :
    readNumber field literal = .ok number ↔ literalNumber? literal = some number := by
  rw [readNumber]
  split <;> simp [*]

theorem readNumber_eq_error_iff {field literal : String} {fault : Fault} :
    readNumber field literal = .error fault ↔
      literalNumber? literal = none ∧ fault = .notNumeric field (unquote literal) := by
  rw [readNumber]
  split <;> simp [*, eq_comm]

theorem Number.Binary64.truncate?_eq_none_iff {number : Binary64} :
    number.truncate? = none ↔ number.isFinite = false := by
  cases number <;> simp [truncate?, isFinite]

/-- Whether a value cannot be compared with a literal. -/
def Value.Refuses (literal : String) : Value → Prop
  | .integer _ => literalNumber? literal = none ∨
      ∃ number, literalNumber? literal = some number ∧ number.isFinite = false
  | .float _ => literalNumber? literal = none
  | .text _ => False

theorem Value.orderToLiteral_eq_error_iff {actual : Value} {field literal : String}
    {fault : Fault} :
    actual.orderToLiteral field literal = .error fault ↔
      actual.Refuses literal ∧ fault = .notNumeric field (unquote literal) := by
  cases actual with
  | integer whole =>
      rw [orderToLiteral, Collection.bind_eq_error_iff, readNumber_eq_error_iff, Refuses, or_and_right]
      refine or_congr_right ?_
      simp only [readNumber_eq_ok_iff, ← Binary64.truncate?_eq_none_iff]
      constructor
      · rintro ⟨number, read, failed⟩
        split at failed
        · cases failed
        next infinite => exact ⟨⟨number, read, infinite⟩, (Except.error.inj failed).symm⟩
      · rintro ⟨⟨number, read, infinite⟩, rfl⟩
        refine ⟨number, read, ?_⟩
        rw [infinite]
        rfl
  | float number =>
      rw [orderToLiteral, Collection.bind_eq_error_iff, readNumber_eq_error_iff, Refuses]
      refine or_iff_left ?_
      rintro ⟨literal, -, compared⟩
      cases compared
  | text written =>
      refine iff_of_false ?_ ?_
      · rintro ⟨⟩
      · rintro ⟨⟨⟩, -⟩

theorem Relation.compare_eq_error_iff {relation : Relation} {actual : Value} {field literal : String}
    {fault : Fault} :
    relation.compare actual field literal = .error fault ↔
      actual.Refuses literal ∧ fault = .notNumeric field (unquote literal) := by
  rw [compare, Collection.map_eq_error_iff, Value.orderToLiteral_eq_error_iff]

/-- What is wrong with a condition on a record. -/
inductive Fault.OfCondition (record : Record) (field literal : String) : Fault → Prop
  | missingField (absent : record.get? field = none) :
      OfCondition record field literal (.missingField field)
  | notNumeric {actual : Value} (held : record.get? field = some actual)
      (refuses : actual.Refuses literal) :
      OfCondition record field literal (.notNumeric field (unquote literal))

theorem Fault.OfCondition.ofData {record : Record} {field literal : String} {fault : Fault}
    (ofCondition : fault.OfCondition record field literal) : fault.OfData := by
  cases ofCondition with
  | missingField _ => exact .missingField field
  | notNumeric _ _ => exact .notNumeric field (unquote literal)

namespace Rule

variable {rule leaf : Rule} {record : Record} {fault : Fault}

theorem evaluate_condition_eq_error_iff {field literal : String} {relation : Relation} :
    (condition field relation literal).evaluate record = .error fault ↔
      fault.OfCondition record field literal := by
  rw [evaluate]
  split
  next actual held =>
    rw [Relation.compare_eq_error_iff]
    constructor
    · rintro ⟨refuses, rfl⟩
      exact .notNumeric held refuses
    · intro ofCondition
      cases ofCondition with
      | missingField absent => cases held.symm.trans absent
      | notNumeric other refuses =>
          obtain rfl := Option.some.inj (held.symm.trans other)
          exact ⟨refuses, rfl⟩
  next absent =>
    constructor
    · intro failed
      obtain rfl := Except.error.inj failed
      exact .missingField absent
    · intro ofCondition
      cases ofCondition with
      | missingField _ => rfl
      | notNumeric held _ => cases absent.symm.trans held

def leaves : Rule → List Rule
  | junction _ left right => left.leaves ++ right.leaves
  | condition field relation literal => [condition field relation literal]
  | term text => [term text]

/-- A rule fails as its first leaf from the left does that fails. -/
theorem evaluate_eq_error_iff :
    rule.evaluate record = .error fault ↔ rule.leaves.mapM (evaluate record) = .error fault := by
  induction rule generalizing fault with
  | junction connective left right leftIh rightIh =>
      -- The right side is come to only if no leaf of the left side fails.
      have leftHolds : (∃ holds, left.evaluate record = .ok holds) ↔
          ∃ verdicts, left.leaves.mapM (evaluate record) = .ok verdicts := by
        simp only [Collection.exists_ok_iff, ne_eq, leftIh]
      rw [leaves, Collection.mapM_append_eq_error_iff, ← leftHolds, ← leftIh, ← rightIh]
      exact Collection.both_eq_error_iff
  | condition field relation literal => rw [leaves, Collection.mapM_singleton_eq_error_iff]
  | term text => rw [leaves, Collection.mapM_singleton_eq_error_iff]

theorem exists_condition_of_mem_leaves (joins : ¬rule.IsTerm ∧ rule.JoinsRules)
    (member : leaf ∈ rule.leaves) :
    ∃ field relation literal, leaf = condition field relation literal := by
  induction rule with
  | junction connective left right leftIh rightIh =>
      obtain ⟨-, leftJoins, rightJoins⟩ := joins
      rcases List.mem_append.mp member with inLeft | inRight
      · exact leftIh leftJoins inLeft
      · exact rightIh rightJoins inRight
  | condition field relation literal =>
      exact ⟨field, relation, literal, List.mem_singleton.mp member⟩
  | term text => exact absurd trivial joins.1

theorem exists_condition_of_evaluate_eq_error (joins : ¬rule.IsTerm ∧ rule.JoinsRules)
    (failed : rule.evaluate record = .error fault) :
    ∃ field relation literal, condition field relation literal ∈ rule.leaves ∧
      fault.OfCondition record field literal := by
  obtain ⟨before, leaf, after, split, -, failed⟩ :=
    Collection.mapM_eq_error_iff.mp (evaluate_eq_error_iff.mp failed)
  have member : leaf ∈ rule.leaves := by
    rw [split]
    exact List.mem_append_right before List.mem_cons_self
  obtain ⟨field, relation, literal, rfl⟩ := exists_condition_of_mem_leaves joins member
  exact ⟨field, relation, literal, member, evaluate_condition_eq_error_iff.mp failed⟩

theorem evaluate_eq_error (joins : ¬rule.IsTerm ∧ rule.JoinsRules)
    (failed : rule.evaluate record = .error fault) : fault.OfData := by
  obtain ⟨_, _, _, -, ofCondition⟩ := exists_condition_of_evaluate_eq_error joins failed
  exact ofCondition.ofData

end Rule

end Rulebook
