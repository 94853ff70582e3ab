import Rulebook.Proofs.Catalogue.Join

/-!
Which rules can be joined. A chain puts groups around the texts in it, so rules that can be read on
their own may be too many or too deep to be read together. Under the default policy nothing else
keeps kept rules from being joined.
-/

namespace Rulebook

/-- Whether no point of the chain of some texts lies too deep. -/
def Joining.Fits (texts : List String) : Prop :=
  texts.length = 1 ∨
    chainNesting (texts.map fun text => Token.nesting (Token.split text)) ≤ maxNesting

instance (texts : List String) : Decidable (Joining.Fits texts) :=
  inferInstanceAs (Decidable (_ ∨ _))

theorem Joining.parse_join_of_parsed (connective : Connective) {texts : List String}
    {rules : List Rule} (nonempty : texts ≠ [])
    (read : texts.mapM (Rule.parse .strict) = .ok rules) :
    ∃ whole, Rule.chain? connective rules = some whole ∧
      (chained.join connective texts >>= Rule.parse .strict) =
        if Fits texts then .ok whole else .error (.malformed .tooDeep) := by
  by_cases single : texts.length = 1
  · obtain ⟨text, rfl⟩ := List.length_eq_one_iff.mp single
    obtain ⟨rule, rest, readText, readRest, rfl⟩ := Collection.mapM_cons_eq_ok_iff.mp read
    obtain rfl : [] = rest := Except.ok.inj readRest
    refine ⟨rule, rfl, ?_⟩
    rw [if_pos (.inl single), parse_join_single, readText]
  · have several : 2 ≤ texts.length := by
      have := List.length_pos_iff.mpr nonempty
      omega
    obtain ⟨whole, together, outcome⟩ := parse_join_several connective several read
    refine ⟨whole, together, ?_⟩
    simp only [outcome, Fits, single, false_or]

namespace Catalogue

variable {catalogue : Catalogue} {connective : Connective} {ids : List RuleId}
variable {parts : List KeptRule} (name description : String)

theorem join_of_found (chained : catalogue.policy.joining = .chained)
    (all : ids.mapM catalogue.find = .ok parts) :
    catalogue.join connective ids name description =
      (Joining.chained.join connective (parts.map KeptRule.text) >>=
        catalogue.add name description) := by
  rw [join, all, Collection.ok_bind, Policy.join, chained]

theorem step_join_of_parse_ok {rule : Rule} (chained : catalogue.policy.joining = .chained)
    (all : ids.mapM catalogue.find = .ok parts)
    (read : (Joining.chained.join connective (parts.map KeptRule.text) >>=
      catalogue.policy.parseRule) = .ok rule) :
    ∃ kept, kept.rule = rule ∧ catalogue.step (.join connective ids name description) =
      (.ok (.kept kept), catalogue.grow kept) := by
  obtain ⟨text, written, parsed⟩ := Collection.bind_eq_ok_iff.mp read
  refine ⟨⟨catalogue.nextId, name, description, text, rule⟩, rfl, ?_⟩
  apply step_of_serve_ok
  rw [serve, join_of_found name description chained all, written, Collection.ok_bind, add, parsed]
  rfl

theorem step_join_of_parse_error {fault : Fault} (chained : catalogue.policy.joining = .chained)
    (all : ids.mapM catalogue.find = .ok parts)
    (failed : (Joining.chained.join connective (parts.map KeptRule.text) >>=
      catalogue.policy.parseRule) = .error fault) :
    catalogue.step (.join connective ids name description) = (.error fault, catalogue) := by
  apply step_of_serve_error
  rw [serve, join_of_found name description chained all]
  rcases Collection.bind_eq_error_iff.mp failed with notWritten | ⟨text, written, notParsed⟩
  · rw [notWritten]
    rfl
  · rw [written, Collection.ok_bind, add, notParsed]
    rfl

theorem Consistent.mapM_parse (consistent : catalogue.Consistent)
    (all : ids.mapM catalogue.find = .ok parts) :
    (parts.map KeptRule.text).mapM catalogue.policy.parseRule =
      .ok (parts.map KeptRule.rule) := by
  rw [List.mapM_map]
  apply Collection.mapM_eq_ok_map
  intro part member
  exact consistent.parse_of_mem all member

theorem Consistent.step_join (consistent : catalogue.Consistent) (policy : catalogue.policy = {})
    (nonempty : ids ≠ []) (all : ids.mapM catalogue.find = .ok parts) :
    ((∃ kept, catalogue.step (.join connective ids name description) =
      (.ok (.kept kept), catalogue.grow kept)) ↔ Joining.Fits (parts.map KeptRule.text)) ∧
    (¬Joining.Fits (parts.map KeptRule.text) →
      catalogue.step (.join connective ids name description) =
        (.error (.malformed .tooDeep), catalogue)) := by
  have chained : catalogue.policy.joining = .chained := by rw [policy]
  have strict : catalogue.policy.parseRule = Rule.parse .strict := by
    rw [policy]
    rfl
  have several : parts.map KeptRule.text ≠ [] := by
    have count := Collection.length_of_mapM all
    have positive := List.length_pos_iff.mpr nonempty
    apply List.length_pos_iff.mp
    rw [List.length_map]
    omega
  have read := consistent.mapM_parse all
  rw [strict] at read
  obtain ⟨whole, -, outcome⟩ := Joining.parse_join_of_parsed connective several read
  rw [← strict] at outcome
  by_cases fits : Joining.Fits (parts.map KeptRule.text)
  · rw [if_pos fits] at outcome
    obtain ⟨kept, -, joined⟩ := step_join_of_parse_ok name description chained all outcome
    exact ⟨iff_of_true ⟨kept, joined⟩ fits, fun deep => absurd fits deep⟩
  · rw [if_neg fits] at outcome
    have failed := step_join_of_parse_error name description chained all outcome
    refine ⟨iff_of_false ?_ fits, fun _ => failed⟩
    rintro ⟨kept, joined⟩
    rw [failed] at joined
    cases joined

/-- Texts that are strictly read on their own are read together exactly if their chain fits. -/
theorem parse_join_iff_fits (connective : Connective) :
    (∀ texts : List String, texts ≠ [] →
      (∀ text ∈ texts, ∃ rule, Rule.parse .strict text = .ok rule) →
      ((∃ whole, (Joining.chained.join connective texts >>= Rule.parse .strict) = .ok whole) ↔
        Joining.Fits texts) ∧
      (¬Joining.Fits texts → (Joining.chained.join connective texts >>= Rule.parse .strict) =
        .error (.malformed .tooDeep))) ∧
    ∀ (requests : List Request) (ids : List RuleId) (name description : String),
      let catalogue := reached {} requests
      ids ≠ [] → (∀ id ∈ ids, ∃ kept, catalogue.find id = .ok kept) →
      ∃ parts, ids.mapM catalogue.find = .ok parts ∧
        ((∃ kept, catalogue.step (.join connective ids name description) =
          (.ok (.kept kept), catalogue.grow kept)) ↔ Joining.Fits (parts.map KeptRule.text)) ∧
        (¬Joining.Fits (parts.map KeptRule.text) →
          catalogue.step (.join connective ids name description) =
            (.error (.malformed .tooDeep), catalogue)) := by
  constructor
  · intro texts nonempty each
    obtain ⟨rules, read⟩ := Collection.exists_values_of_forall each
    obtain ⟨whole, -, outcome⟩ := Joining.parse_join_of_parsed connective nonempty read
    by_cases fits : Joining.Fits texts
    · rw [if_pos fits] at outcome
      exact ⟨iff_of_true ⟨whole, outcome⟩ fits, fun deep => absurd fits deep⟩
    · rw [if_neg fits] at outcome
      refine ⟨iff_of_false ?_ fits, fun _ => outcome⟩
      rintro ⟨whole', read⟩
      rw [outcome] at read
      cases read
  · intro requests ids name description catalogue nonempty each
    obtain ⟨parts, all⟩ := Collection.exists_values_of_forall each
    refine ⟨parts, all, ?_⟩
    exact (consistent_reached {} requests).step_join name description
      (policy_reached {} requests) nonempty all

theorem parse_join_iff_fits_full :
    let texts := List.replicate 256 "a = 1"
    Joining.Fits texts ∧
      ∃ whole, (Joining.chained.join .and texts >>= Rule.parse .strict) = .ok whole := by
  intro texts
  have fits : Joining.Fits texts := by decide +kernel
  have nonempty : texts ≠ [] := List.cons_ne_nil _ _
  have each : ∀ text ∈ texts, ∃ rule, Rule.parse .strict text = .ok rule := by
    intro text member
    rw [List.eq_of_mem_replicate member]
    exact ⟨.condition "a" .equal "1", rfl⟩
  exact ⟨fits, ((parse_join_iff_fits .and).1 texts nonempty each).1.mpr fits⟩

theorem parse_join_overfull :
    let texts := List.replicate 257 "a = 1"
    texts.mapM (Rule.parse .strict) =
        .ok (List.replicate 257 (.condition "a" .equal "1")) ∧
      (Joining.chained.join .and texts >>= Rule.parse .strict) = .error (.malformed .tooDeep) := by
  intro texts
  have read : texts.mapM (Rule.parse .strict) =
      .ok (List.replicate 257 (.condition "a" .equal "1")) := Collection.mapM_replicate (by rfl) 257
  have nonempty : texts ≠ [] := List.cons_ne_nil _ _
  obtain ⟨whole, -, outcome⟩ := Joining.parse_join_of_parsed .and nonempty read
  rw [if_neg (by decide +kernel)] at outcome
  exact ⟨read, outcome⟩

end Catalogue

end Rulebook
