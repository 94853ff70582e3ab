import Rulebook.Proofs.Catalogue.Report
import Rulebook.Proofs.Rule.Failure
import Rulebook.Proofs.Rule.Tokens

/-!
Rows of texts after a connective. Nothing reads one, whatever the texts in it are: the connective
stands for a field, and the first group opens where a relation has to be. So a catalogue whose policy
joins texts in a row never keeps a joined rule.
-/

namespace Rulebook

theorem Token.split_row (connective : Connective) {texts : List String} (nonempty : texts ≠ []) :
    ∃ rest, split (row connective texts) = .word connective.text :: .opening :: rest := by
  obtain ⟨first, others, rfl⟩ := List.exists_cons_of_ne_nil nonempty
  let inside := " ".intercalate ((first ++ ")") :: others.map fun text => "(" ++ text ++ ")")
  have opens : row connective (first :: others) = " " ++ connective.text ++ ("(" ++ inside) := by
    have group : "(" ++ first ++ ")" = "(" ++ (first ++ ")") := String.append_assoc
    rw [row, List.map_cons, group, String.intercalate_cons_append]
  have chars : (row connective (first :: others)).toList =
      ([] ++ ' ' :: connective.text.toList) ++ '(' :: inside.toList := by
    simp [opens]
  refine ⟨splitChars inside.toList, ?_⟩
  rw [split_eq_splitChars, chars, splitChars_append_opening, splitChars_append_blank (by decide),
    splitChars_connective]
  rfl

theorem Rule.parse_of_read_eq_error {strictness : Strictness} {text : String} {field token : Token}
    {rest : List Token} {fault : Fault} (split : Token.split text = field :: token :: rest)
    (isField : field.IsField strictness) (refused : Relation.read token.text = .error fault) :
    parse strictness text = .error fault := by
  have stops : (Pending.relation field.text []).next strictness 0 1 token = .error fault :=
    Collection.map_eq_error_iff.mpr refused
  have failed : (Cursor.next { strictness, remaining := Token.split text }).1 = .error fault := by
    rw [split]
    change (Cursor.resume strictness 0 (.rule []) 0 (field :: token :: rest)).1 = .error fault
    rw [Cursor.resume_cons (Pending.next_rule_eq_ok_iff.mpr (.inr ⟨isField, rfl⟩)), Cursor.proceed,
      Cursor.resume, stops]
  rw [parse_of_next (by simp [split]) (Prod.ext failed rfl), Collection.error_bind]

theorem Rule.parse_row (strictness : Strictness) (connective : Connective) {texts : List String}
    (nonempty : texts ≠ []) :
    parse strictness (row connective texts) = .error (.unknownOperator "(") := by
  obtain ⟨rest, split⟩ := Token.split_row connective nonempty
  have isField : (Token.word connective.text).IsField strictness := ⟨by simp, fun _ => by simp⟩
  exact parse_of_read_eq_error split isField rfl

namespace Catalogue

variable {catalogue : Catalogue} {connective : Connective} {ids : List RuleId}
variable {parts : List KeptRule} {fault : Fault}

theorem step_join_of_join_eq_error {name description : String}
    (failed : catalogue.join connective ids name description = .error fault) :
    catalogue.step (.join connective ids name description) = (.error fault, catalogue) := by
  apply step_of_serve_error
  rw [serve, failed]
  rfl

theorem join_of_found_legacy (legacy : catalogue.policy.joining = .legacy)
    (all : ids.mapM catalogue.find = .ok parts) (name description : String) :
    catalogue.join connective ids name description =
      .error (if ids = [] then .malformed .noRules else .unknownOperator "(") := by
  have count : parts.length = ids.length := Collection.length_of_mapM all
  rw [join, all, Collection.ok_bind, Policy.join, legacy, Joining.join]
  by_cases empty : ids = []
  · subst empty
    obtain rfl := List.eq_nil_of_length_eq_zero count
    rfl
  · have nonempty : parts.map KeptRule.text ≠ [] := by
      rw [← List.length_pos_iff, List.length_map, count, List.length_pos_iff]
      exact empty
    rw [if_neg nonempty, if_neg empty, Collection.ok_bind, add, Policy.parseRule,
      Rule.parse_row _ _ nonempty, Collection.error_bind]

/-- No reading takes a row of texts after a connective, so under a policy that joins in rows no
rules are joined. -/
theorem step_join_legacy :
    (∀ (connective : Connective) (texts : List String), texts ≠ [] →
      ∃ text, Joining.legacy.join connective texts = .ok text ∧
        ∀ strictness, Rule.parse strictness text = .error (.unknownOperator "(")) ∧
    ∀ (policy : Policy) (requests : List Request) (connective : Connective) (ids : List RuleId)
      (name description : String), policy.joining = .legacy →
      let catalogue := reached policy requests
      ∃ fault, catalogue.step (.join connective ids name description) = (.error fault, catalogue) ∧
        (ids = [] → fault = .malformed .noRules) ∧
        (∀ id, catalogue.FirstUnknown ids id → fault = .unknownRule id) ∧
        (ids ≠ [] → (∀ id ∈ ids, ∃ kept, catalogue.find id = .ok kept) →
          fault = .unknownOperator "(") := by
  constructor
  · intro connective texts nonempty
    refine ⟨row connective texts, ?_, fun strictness => Rule.parse_row strictness connective nonempty⟩
    rw [Joining.join, if_neg nonempty]
  · intro policy requests connective ids name description isLegacy catalogue
    have legacy : catalogue.policy.joining = .legacy := by
      rw [policy_reached policy requests, isLegacy]
    have missing {id : RuleId} (unknown : catalogue.FirstUnknown ids id) :
        ids.mapM catalogue.find = .error (.unknownRule id) :=
      mapM_find_eq_error_iff.mpr ⟨id, unknown, rfl⟩
    cases found : ids.mapM catalogue.find with
    | error fault =>
        have failed : catalogue.join connective ids name description = .error fault := by
          rw [join, found, Collection.error_bind]
        refine ⟨fault, step_join_of_join_eq_error failed, ?_, ?_, ?_⟩
        · rintro rfl
          cases found
        · intro id unknown
          exact Except.error.inj (found.symm.trans (missing unknown))
        · intro _ known
          obtain ⟨parts, all⟩ := Collection.exists_values_of_forall known
          cases found.symm.trans all
    | ok parts =>
        have failed : catalogue.join connective ids name description = .error _ :=
          join_of_found_legacy legacy found name description
        refine ⟨_, step_join_of_join_eq_error failed, fun empty => if_pos empty, ?_,
          fun nonempty _ => if_neg nonempty⟩
        intro id unknown
        cases found.symm.trans (missing unknown)

theorem step_join_legacy_missing :
    let requests := [.add "a" "" "a > 1 )", .add "b" "" "(b < 2", .add "b" "" "b < 2", .remove 1,
      .add "c" "" "(c = x AND d = y ]"]
    let catalogue := reached .legacy requests
    (∃ text, Joining.legacy.join .or ["", "a > 1) (", "\n"] = .ok text ∧
      Rule.parse .lenient text = .error (.unknownOperator "(")) ∧
    catalogue.ids = [2, 3] ∧
    catalogue.step (.join .and [3, 2, 3] "" "") = (.error (.unknownOperator "("), catalogue) ∧
    catalogue.step (.join .and [3, 1, 4] "" "") = (.error (.unknownRule 1), catalogue) ∧
    catalogue.step (.join .and [] "" "") = (.error (.malformed .noRules), catalogue) := by
  intro requests catalogue
  obtain ⟨refuses, fails⟩ := step_join_legacy
  obtain ⟨text, written, unread⟩ := refuses .or ["", "a > 1) (", "\n"] (List.cons_ne_nil _ _)
  have fails (ids : List RuleId) := fails .legacy requests .and ids "" "" rfl
  have second : ∃ kept, catalogue.find 2 = .ok kept := ⟨_, rfl⟩
  have third : ∃ kept, catalogue.find 3 = .ok kept := ⟨_, rfl⟩
  refine ⟨⟨text, written, unread .lenient⟩, by decide +kernel, ?_, ?_, ?_⟩
  · obtain ⟨fault, failed, -, -, refused⟩ := fails [3, 2, 3]
    obtain rfl := refused (List.cons_ne_nil _ _) (by simp [second, third, catalogue])
    exact failed
  · obtain ⟨fault, failed, -, missing, -⟩ := fails [3, 1, 4]
    have unknown : catalogue.FirstUnknown [3, 1, 4] 1 :=
      ⟨[3], [4], rfl, by simp [third, catalogue], rfl⟩
    obtain rfl := missing 1 unknown
    exact failed
  · obtain ⟨fault, failed, empty, -⟩ := fails []
    obtain rfl := empty rfl
    exact failed

end Catalogue

end Rulebook
