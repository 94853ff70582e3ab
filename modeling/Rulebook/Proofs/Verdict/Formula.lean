import Mathlib.Tactic.Choose
import Rulebook.Proofs.Verdict

/-!
A rule as a formula over its leaves. On a record it fails as its first leaf from the left does that
fails; if none does, it comes to the value of the formula for what its leaves come to.
-/

namespace Rulebook

/-- What a leaf comes to on a record. -/
inductive LeafResult (record : Record) : Rule → Except Fault Bool → Prop
  | term (text : String) : LeafResult record (.term text) (.error (.noTruthValue text))
  | missing {field : String} (relation : Relation) (literal : String)
      (absent : record.get? field = none) :
      LeafResult record (.condition field relation literal) (.error (.missingField field))
  | compared {field : String} {relation : Relation} {literal : String} {actual : Value}
      {result : Except Fault Bool} (held : record.get? field = some actual)
      (outcome : relation.compare actual field literal = result) :
      LeafResult record (.condition field relation literal) result

namespace Rule

variable {rule leaf : Rule} {record : Record} {assignment : Rule → Bool}

/-- The value of a rule as a formula, given one for each of its leaves. -/
def truth (assignment : Rule → Bool) : Rule → Bool
  | junction .and left right => left.truth assignment && right.truth assignment
  | junction .or left right => left.truth assignment || right.truth assignment
  | condition field relation literal => assignment (condition field relation literal)
  | term text => assignment (term text)

theorem truth_junction (connective : Connective) (left right : Rule) :
    (junction connective left right).truth assignment =
      connective.join (left.truth assignment) (right.truth assignment) := by
  cases connective <;> rfl

theorem leafResult_iff {result : Except Fault Bool} (member : leaf ∈ rule.leaves) :
    LeafResult record leaf result ↔ leaf.evaluate record = result := by
  induction rule with
  | junction connective left right leftIh rightIh =>
      rcases List.mem_append.mp member with inLeft | inRight
      · exact leftIh inLeft
      · exact rightIh inRight
  | condition field relation literal =>
      obtain rfl := List.mem_singleton.mp member
      rw [evaluate]
      constructor
      · intro comes
        cases comes with
        | missing _ _ absent => simp [absent]
        | compared held outcome => simp [held, outcome]
      · rintro rfl
        split
        next actual held => exact .compared held rfl
        next absent => exact .missing relation literal absent
  | term text =>
      obtain rfl := List.mem_singleton.mp member
      constructor
      · rintro ⟨⟩
        rfl
      · rintro rfl
        exact .term text

theorem evaluate_of_leaves
    (each : ∀ leaf ∈ rule.leaves, leaf.evaluate record = .ok (assignment leaf)) :
    rule.evaluate record = .ok (rule.truth assignment) := by
  induction rule with
  | junction connective left right leftIh rightIh =>
      rw [leaves, List.forall_mem_append] at each
      rw [evaluate, leftIh each.1, rightIh each.2, truth_junction]
      rfl
  | condition field relation literal => exact each _ List.mem_cons_self
  | term text => exact each _ List.mem_cons_self

theorem exists_value_of_mem_leaves {holds : Bool} (decided : rule.evaluate record = .ok holds)
    (member : leaf ∈ rule.leaves) : ∃ value, leaf.evaluate record = .ok value := by
  have noFault : ∃ values, rule.leaves.mapM (evaluate record) = .ok values := by
    rw [Collection.exists_ok_iff]
    intro fault failed
    cases decided.symm.trans (evaluate_eq_error_iff.mpr failed)
  obtain ⟨values, all⟩ := noFault
  obtain ⟨value, -, isValue⟩ := Collection.exists_value_of_mem all member
  exact ⟨value, isValue⟩

theorem evaluate_eq_ok_iff {holds : Bool} :
    rule.evaluate record = .ok holds ↔
      ∃ assignment : Rule → Bool,
        (∀ leaf ∈ rule.leaves, leaf.evaluate record = .ok (assignment leaf)) ∧
        rule.truth assignment = holds := by
  constructor
  · intro decided
    -- No leaf fails, so what the leaves come to is an assignment; elsewhere it may be anything.
    have valued (leaf : Rule) :
        ∃ value, leaf ∈ rule.leaves → leaf.evaluate record = .ok value := by
      by_cases member : leaf ∈ rule.leaves
      · obtain ⟨value, isValue⟩ := exists_value_of_mem_leaves decided member
        exact ⟨value, fun _ => isValue⟩
      · exact ⟨false, fun isLeaf => absurd isLeaf member⟩
    choose assignment each using valued
    exact ⟨assignment, each, Except.ok.inj ((evaluate_of_leaves each).symm.trans decided)⟩
  · rintro ⟨assignment, each, rfl⟩
    exact evaluate_of_leaves each

/-- What a rule comes to is found by one look at its leaves, from left to right. -/
theorem evaluate_leaves (rule : Rule) (record : Record) :
    (∀ fault, rule.evaluate record = .error fault ↔
      ∃ before leaf after, rule.leaves = before ++ leaf :: after ∧
        (∀ earlier ∈ before, ∃ value, LeafResult record earlier (.ok value)) ∧
        LeafResult record leaf (.error fault)) ∧
    ∀ holds, rule.evaluate record = .ok holds ↔
      ∃ assignment : Rule → Bool,
        (∀ leaf ∈ rule.leaves, LeafResult record leaf (.ok (assignment leaf))) ∧
        rule.truth assignment = holds := by
  constructor
  · intro fault
    rw [evaluate_eq_error_iff, Collection.mapM_eq_error_iff]
    refine exists₃_congr fun before leaf after => and_congr_right fun split => ?_
    have isLeaf : leaf ∈ rule.leaves := by simp [split]
    have areLeaves : ∀ earlier ∈ before, earlier ∈ rule.leaves := by
      intro earlier member
      simp [split, member]
    rw [leafResult_iff isLeaf]
    refine and_congr_left' (forall₂_congr fun earlier member => ?_)
    simp only [leafResult_iff (areLeaves earlier member)]
  · intro holds
    rw [evaluate_eq_ok_iff]
    refine exists_congr fun assignment => and_congr_left' (forall₂_congr fun leaf member => ?_)
    rw [leafResult_iff member]

theorem evaluate_leaves_decided :
    let rule := junction .or (condition "a" .equal "x")
      (junction .and (condition "b" .less "1") (term "c"))
    rule.evaluate (.ofList [("a", .text "x")]) = .error (.missingField "b") := by
  intro rule
  rw [(evaluate_leaves rule _).1]
  refine ⟨[condition "a" .equal "x"], condition "b" .less "1", [term "c"], rfl, ?_, ?_⟩
  · intro earlier member
    obtain rfl := List.mem_singleton.mp member
    exact ⟨true, .compared rfl rfl⟩
  · exact .missing .less "1" rfl

end Rule

end Rulebook
