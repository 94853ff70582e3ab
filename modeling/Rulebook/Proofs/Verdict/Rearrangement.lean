import Mathlib.Data.List.Forall2
import Rulebook.Proofs.Rule.Chain
import Rulebook.Proofs.Verdict.Formula

/-!
What a rule comes to on a record depends on its leaves and on the formula that it is over them, and
on nothing else: it may be rearranged, and rules may be joined in any order and in several steps.
-/

namespace Rulebook

namespace Connective

theorem join_comm (connective : Connective) (first second : Bool) :
    connective.join first second = connective.join second first := by
  cases connective
  · exact Bool.and_comm first second
  · exact Bool.or_comm first second

theorem join_assoc (connective : Connective) (first second third : Bool) :
    connective.join (connective.join first second) third =
      connective.join first (connective.join second third) := by
  cases connective
  · exact Bool.and_assoc first second third
  · exact Bool.or_assoc first second third

theorem join_distrib (outer inner : Connective) (first second third : Bool) :
    outer.join first (inner.join second third) =
      inner.join (outer.join first second) (outer.join first third) := by
  cases outer <;> cases inner <;> revert first second third <;> decide

theorem joinAll_congr (connective : Connective) {results others : List Bool}
    (same : ∀ result, result ∈ results ↔ result ∈ others) :
    connective.joinAll results = connective.joinAll others := by
  rw [Bool.eq_iff_iff]
  cases connective
  · simp only [joinAll, List.all_eq_true, same]
  · simp only [joinAll, List.any_eq_true, same]

theorem joinAll_cons (connective : Connective) (result : Bool) (results : List Bool) :
    connective.joinAll (result :: results) = connective.join result (connective.joinAll results) := by
  cases connective <;> rfl

theorem joinAll_append (connective : Connective) (results others : List Bool) :
    connective.joinAll (results ++ others) =
      connective.join (connective.joinAll results) (connective.joinAll others) := by
  cases connective
  · exact List.all_append
  · exact List.any_append

end Connective

namespace Rule

variable {rule other : Rule}

/-- Rules with the same leaves that, as formulas over them, never differ in value. -/
structure SameMeaning (rule other : Rule) : Prop where
  leaves : ∀ leaf, leaf ∈ rule.leaves ↔ leaf ∈ other.leaves
  truth : ∀ assignment, rule.truth assignment = other.truth assignment

namespace SameMeaning

theorem symm (same : rule.SameMeaning other) : other.SameMeaning rule :=
  ⟨fun leaf => (same.leaves leaf).symm, fun assignment => (same.truth assignment).symm⟩

theorem trans {third : Rule} (same : rule.SameMeaning other) (same' : other.SameMeaning third) :
    rule.SameMeaning third :=
  ⟨fun leaf => (same.leaves leaf).trans (same'.leaves leaf),
    fun assignment => (same.truth assignment).trans (same'.truth assignment)⟩

theorem junction {left left' right right' : Rule} (connective : Connective)
    (sameLeft : left.SameMeaning left') (sameRight : right.SameMeaning right') :
    (junction connective left right).SameMeaning (.junction connective left' right') := by
  constructor
  · intro leaf
    simp only [Rule.leaves, List.mem_append, sameLeft.leaves, sameRight.leaves]
  · intro assignment
    rw [truth_junction, truth_junction, sameLeft.truth, sameRight.truth]

theorem evaluate_eq_ok (same : rule.SameMeaning other) {record : Record} {holds : Bool}
    (decided : rule.evaluate record = .ok holds) : other.evaluate record = .ok holds := by
  obtain ⟨assignment, each, rfl⟩ := evaluate_eq_ok_iff.mp decided
  rw [same.truth]
  apply evaluate_of_leaves
  intro leaf member
  exact each leaf ((same.leaves leaf).mpr member)

end SameMeaning

/-- Rules that become one another by commuting, regrouping and distributing junctions anywhere in
them. -/
inductive Rearranged : Rule → Rule → Prop
  | refl (rule : Rule) : Rearranged rule rule
  | symm {rule other : Rule} : Rearranged rule other → Rearranged other rule
  | trans {rule middle other : Rule} :
      Rearranged rule middle → Rearranged middle other → Rearranged rule other
  | junction {left left' right right' : Rule} (connective : Connective) :
      Rearranged left left' → Rearranged right right' →
      Rearranged (junction connective left right) (junction connective left' right')
  | commute (connective : Connective) (left right : Rule) :
      Rearranged (junction connective left right) (junction connective right left)
  | regroup (connective : Connective) (first second third : Rule) :
      Rearranged (junction connective (junction connective first second) third)
        (junction connective first (junction connective second third))
  | distribute (outer inner : Connective) (first second third : Rule) :
      Rearranged (junction outer first (junction inner second third))
        (junction inner (junction outer first second) (junction outer first third))

theorem Rearranged.sameMeaning (rearranged : rule.Rearranged other) : rule.SameMeaning other := by
  induction rearranged with
  | refl rule => exact ⟨fun _ => Iff.rfl, fun _ => rfl⟩
  | symm _ ih => exact ih.symm
  | trans _ _ ih ih' => exact ih.trans ih'
  | junction connective _ _ leftIh rightIh => exact .junction connective leftIh rightIh
  | commute connective left right =>
      constructor
      · intro leaf
        simp only [leaves, List.mem_append, or_comm]
      · intro assignment
        simp only [truth_junction]
        exact connective.join_comm _ _
  | regroup connective first second third =>
      constructor
      · intro leaf
        simp only [leaves, List.append_assoc]
      · intro assignment
        simp only [truth_junction]
        exact connective.join_assoc _ _ _
  | distribute outer inner first second third =>
      constructor
      · intro leaf
        simp only [leaves, List.mem_append]
        grind
      · intro assignment
        simp only [truth_junction]
        exact Connective.join_distrib outer inner _ _ _

theorem mem_leaves_foldl_junction (connective : Connective) {leaf : Rule} (first : Rule)
    (rest : List Rule) :
    leaf ∈ (rest.foldl (junction connective) first).leaves ↔
      ∃ rule ∈ first :: rest, leaf ∈ rule.leaves := by
  induction rest generalizing first with
  | nil => simp
  | cons second rest ih =>
      rw [List.foldl_cons, ih]
      simp only [List.mem_cons, exists_eq_or_imp, leaves, List.mem_append, or_assoc]

theorem truth_foldl_junction (connective : Connective) (assignment : Rule → Bool) (first : Rule)
    (rest : List Rule) :
    (rest.foldl (junction connective) first).truth assignment =
      connective.joinAll ((first :: rest).map (truth assignment)) := by
  induction rest generalizing first with
  | nil => exact (connective.joinAll_single _).symm
  | cons second rest ih =>
      rw [List.foldl_cons, ih, List.map_cons, truth_junction, connective.joinAll_join]
      rfl

structure Joins (connective : Connective) (rules : List Rule) (whole : Rule) : Prop where
  leaves : ∀ leaf, leaf ∈ whole.leaves ↔ ∃ rule ∈ rules, leaf ∈ rule.leaves
  truth : ∀ assignment, whole.truth assignment = connective.joinAll (rules.map (truth assignment))

section Joins

variable {connective : Connective} {rules others : List Rule} {whole whole' : Rule}

theorem joins_of_chain? (chained : chain? connective rules = some whole) :
    Joins connective rules whole := by
  cases rules with
  | nil => cases chained
  | cons first rest =>
      obtain rfl := Option.some.inj chained
      constructor
      · intro leaf
        exact mem_leaves_foldl_junction connective first rest
      · intro assignment
        exact truth_foldl_junction connective assignment first rest

theorem Joins.sameMeaning (same : ∀ rule, rule ∈ rules ↔ rule ∈ others)
    (joins : Joins connective rules whole) (joins' : Joins connective others whole') :
    whole.SameMeaning whole' := by
  constructor
  · intro leaf
    simp only [joins.leaves, joins'.leaves, same]
  · intro assignment
    rw [joins.truth, joins'.truth]
    apply connective.joinAll_congr
    simp only [List.mem_map, same, implies_true]

theorem Joins.flatten {groups : List (List Rule)} (each : List.Forall₂ (Joins connective) groups rules)
    (joins : Joins connective rules whole) : Joins connective groups.flatten whole := by
  constructor
  · intro leaf
    rw [joins.leaves]
    clear joins
    induction each with
    | nil => rfl
    | cons first _ ih =>
        simp only [List.flatten_cons, List.mem_cons, List.mem_append, or_and_right, exists_or,
          exists_eq_left, first.leaves, ih]
  · intro assignment
    rw [joins.truth]
    clear joins
    induction each with
    | nil => rfl
    | cons first _ ih =>
        rw [List.map_cons, Connective.joinAll_cons, first.truth, ih, List.flatten_cons, List.map_append,
          Connective.joinAll_append]

theorem joins_of_parse_join {texts : List String} (read : texts.mapM (parse .strict) = .ok rules)
    (joined : (Joining.chained.join connective texts >>= parse .strict) = .ok whole) :
    Joins connective rules whole := by
  obtain ⟨derivations, sameTokens, rfl⟩ := exists_derivations read
  exact joins_of_chain? (Joining.chain?_of_parse_join sameTokens joined)

theorem exists_rules_of_same {texts others : List String}
    (same : ∀ text, text ∈ texts ↔ text ∈ others) (read : texts.mapM (parse .strict) = .ok rules) :
    ∃ rules', others.mapM (parse .strict) = .ok rules' ∧ ∀ rule, rule ∈ rules ↔ rule ∈ rules' := by
  have readable : ∀ text ∈ others, ∃ rule, parse .strict text = .ok rule := by
    intro text member
    obtain ⟨rule, -, readText⟩ := Collection.exists_value_of_mem read ((same text).mpr member)
    exact ⟨rule, readText⟩
  obtain ⟨rules', read'⟩ := Collection.exists_values_of_forall readable
  refine ⟨rules', read', fun rule => ?_⟩
  rw [Collection.mem_iff_of_mapM read, Collection.mem_iff_of_mapM read']
  simp only [same]

theorem exists_groups_of_joined {groups : List (List String)} {joined : List String}
    {parts : List Rule} (made : groups.mapM (Joining.chained.join connective) = .ok joined)
    (readJoined : joined.mapM (parse .strict) = .ok parts)
    (read : groups.flatten.mapM (parse .strict) = .ok rules) :
    ∃ ruleGroups : List (List Rule), ruleGroups.flatten = rules ∧
      List.Forall₂ (Joins connective) ruleGroups parts := by
  induction groups generalizing joined parts rules with
  | nil =>
      obtain rfl := Except.ok.inj made
      obtain rfl := Except.ok.inj readJoined
      obtain rfl := Except.ok.inj read
      exact ⟨[], rfl, .nil⟩
  | cons group groups ih =>
      obtain ⟨text, texts, madeText, madeTexts, rfl⟩ := Collection.mapM_cons_eq_ok_iff.mp made
      obtain ⟨part, parts, readPart, readParts, rfl⟩ := Collection.mapM_cons_eq_ok_iff.mp readJoined
      obtain ⟨inGroup, later, readGroup, readLater, rfl⟩ := Collection.mapM_append_eq_ok_iff.mp read
      obtain ⟨ruleGroups, rfl, each⟩ := ih madeTexts readParts readLater
      have joins : Joins connective inGroup part := by
        apply joins_of_parse_join readGroup
        rw [madeText, Collection.ok_bind, readPart]
      exact ⟨inGroup :: ruleGroups, rfl, .cons joins each⟩

end Joins

/-- A rule comes to nothing else on a record for being rearranged, nor do joined rules for being
joined another way. -/
theorem evaluate_rearranged_rejoined :
    (∀ rule other : Rule, rule.SameMeaning other → ∀ record holds,
      (rule.evaluate record = .ok holds ↔ other.evaluate record = .ok holds)) ∧
    (∀ rule other : Rule, rule.Rearranged other → rule.SameMeaning other) ∧
    (∀ (connective : Connective) (texts others : List String) (rules : List Rule)
      (whole whole' : Rule), (∀ text, text ∈ texts ↔ text ∈ others) →
      texts.mapM (parse .strict) = .ok rules →
      (Joining.chained.join connective texts >>= parse .strict) = .ok whole →
      (Joining.chained.join connective others >>= parse .strict) = .ok whole' →
      whole.SameMeaning whole') ∧
    ∀ (connective : Connective) (groups : List (List String)) (joined : List String)
      (rules parts : List Rule) (whole whole' : Rule),
      groups.mapM (Joining.chained.join connective) = .ok joined →
      groups.flatten.mapM (parse .strict) = .ok rules →
      joined.mapM (parse .strict) = .ok parts →
      (Joining.chained.join connective joined >>= parse .strict) = .ok whole →
      (Joining.chained.join connective groups.flatten >>= parse .strict) = .ok whole' →
      whole.SameMeaning whole' := by
  refine ⟨?_, ?_, ?_, ?_⟩
  · intro rule other same record holds
    exact ⟨same.evaluate_eq_ok, same.symm.evaluate_eq_ok⟩
  · intro rule other rearranged
    exact rearranged.sameMeaning
  · intro connective texts others rules whole whole' same read joined joined'
    obtain ⟨rules', read', sameRules⟩ := exists_rules_of_same same read
    exact (joins_of_parse_join read joined).sameMeaning sameRules (joins_of_parse_join read' joined')
  · intro connective groups texts rules parts whole whole' made read readJoined joined joined'
    obtain ⟨ruleGroups, rfl, each⟩ := exists_groups_of_joined made readJoined read
    have joins := (joins_of_parse_join readJoined joined).flatten each
    exact joins.sameMeaning (fun _ => Iff.rfl) (joins_of_parse_join read joined')

theorem evaluate_rearranged_rejoined_distributed :
    let first := condition "a" .equal "1"
    let second := condition "b" .greater "2"
    let third := condition "c" .less "3"
    let rule := junction .and first (junction .or second third)
    let other := junction .or (junction .and second first) (junction .and first third)
    let record := Record.ofList [("a", .text "1"), ("b", .text "0"), ("c", .text "2")]
    rule.Rearranged other ∧ rule.SameMeaning other ∧ other.evaluate record = .ok true ∧
      (junction .or first second).SameMeaning (junction .or (junction .or second first) second) ∧
      (junction .and first (junction .and second third)).SameMeaning
        (junction .and (junction .and first second) third) := by
  intro first second third rule other record
  have rearranged : rule.Rearranged other :=
    .trans (.distribute .and .or first second third)
      (.junction .or (.commute .and first second) (.refl _))
  have decided : rule.evaluate record = .ok true := by rfl
  obtain ⟨kept, means, ordered, grouped⟩ := evaluate_rearranged_rejoined
  have same := means rule other rearranged
  refine ⟨rearranged, same, (kept rule other same record true).mp decided, ?_, ?_⟩
  · refine ordered .or ["a = 1", "b > 2"] ["b > 2", "a = 1", "b > 2"] [first, second] _ _ ?_ ?_ ?_ ?_
    · intro text
      simp only [List.mem_cons, List.not_mem_nil, or_false]
      grind
    · cbv
    · cbv
    · cbv
  · refine grouped .and [["a = 1"], ["b > 2", "c < 3"]] ["a = 1", "((b > 2) AND (c < 3))"]
      [first, second, third] [first, junction .and second third] _ _ ?_ ?_ ?_ ?_ ?_
    · cbv
    · cbv
    · cbv
    · cbv
    · cbv

end Rule

end Rulebook
