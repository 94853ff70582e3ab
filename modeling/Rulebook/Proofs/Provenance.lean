import Rulebook.Proofs.Catalogue.History
import Rulebook.Proofs.Document.Conversion
import Rulebook.Proofs.Verdict

/-!
Where rules come from, and what follows for asking them of records. A rule that is read from a text,
made from a document or kept in a catalogue has conditions for its leaves, so nothing but a missing
field or an unsuitable literal can keep it from saying something of a record.
-/

namespace Rulebook

namespace Rule

/-- The rules that texts are read as, that documents are made, and that catalogues keep. -/
inductive Obtained : Rule → Prop
  | read {strictness : Strictness} {text : String} {rule : Rule}
      (read : parse strictness text = .ok rule) : Obtained rule
  | made {document : Document} {rule : Rule} (whole : document.kind ≠ .term)
      (made : document.toRule = .ok rule) : Obtained rule
  | kept {policy : Policy} {requests : List Catalogue.Request} {id : RuleId} {kept : KeptRule}
      (found : (Catalogue.reached policy requests).find id = .ok kept) : Obtained kept.rule

variable {rule : Rule}

theorem Obtained.joinsRules (obtained : rule.Obtained) : ¬rule.IsTerm ∧ rule.JoinsRules := by
  cases obtained with
  | read read => exact joinsRules_of_parse read
  | made whole made =>
      obtain ⟨rfl, joins, -⟩ := Document.ofRule_of_toRuleWithin made
      exact ⟨mt Document.kind_ofRule_eq_term_iff.mpr whole, joins⟩
  | kept found =>
      exact joinsRules_of_parse ((Catalogue.consistent_reached _ _).parsed _ _ found)

/-- A rule that can be come by fails on a record for one of its conditions, never for its form. -/
theorem evaluate_obtained (obtained : rule.Obtained) (record : Record) :
    (∀ text, rule.evaluate record ≠ .error (.noTruthValue text)) ∧
    ∀ fault, rule.evaluate record = .error fault →
      ∃ field relation literal, condition field relation literal ∈ rule.leaves ∧
        fault.OfCondition record field literal := by
  refine ⟨?_, ?_⟩
  · intro text failed
    cases evaluate_eq_error obtained.joinsRules failed
  · intro fault failed
    exact exists_condition_of_evaluate_eq_error obtained.joinsRules failed

theorem evaluate_obtained_infinite :
    let document := Document.ofRule
      (.junction .or (.condition "a" .equal "x") (.condition "b" .greater "'inf'"))
    let record := Record.ofList [("a", .text "x"), ("b", .integer 5)]
    ∃ rule, document.kind ≠ .term ∧ document.toRule = .ok rule ∧
      rule.evaluate record = .error (.notNumeric "b" "inf") ∧
      ∃ field relation literal, condition field relation literal ∈ rule.leaves ∧
        (Fault.notNumeric "b" "inf").OfCondition record field literal := by
  intro document record
  have whole : document.kind ≠ .term := by decide
  have made : document.toRule = .ok (.junction .or (.condition "a" .equal "x")
    (.condition "b" .greater "'inf'")) := by rfl
  obtain ⟨-, atFault⟩ := evaluate_obtained (.made whole made) record
  have failed : (junction .or (condition "a" .equal "x") (.condition "b" .greater "'inf'")).evaluate
      record = .error (.notNumeric "b" "inf") := by rfl
  exact ⟨_, whole, made, failed, atFault _ failed⟩

end Rule

end Rulebook
