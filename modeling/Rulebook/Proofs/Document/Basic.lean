import Rulebook.Document.Basic
import Rulebook.Proofs.Collection.Except
import Rulebook.Proofs.Rule.Reading

/-!
Documents of rules: how far their nodes go down, and which rules are made again from theirs.
-/

namespace Rulebook

namespace Document

theorem induction {motive : Document → Prop}
    (node : ∀ kind value left right, (∀ child ∈ left, motive child) →
      (∀ child ∈ right, motive child) → motive ⟨kind, value, left, right⟩) :
    ∀ document, motive document
  | ⟨kind, value, none, none⟩ => node kind value none none (by simp) (by simp)
  | ⟨kind, value, some left, none⟩ =>
      node kind value (some left) none (by simpa using induction node left) (by simp)
  | ⟨kind, value, none, some right⟩ =>
      node kind value none (some right) (by simp) (by simpa using induction node right)
  | ⟨kind, value, some left, some right⟩ =>
      node kind value (some left) (some right) (by simpa using induction node left)
        (by simpa using induction node right)

/-- The number of nodes in the longest chain of nodes below each other. -/
def levels : Document → Nat
  | ⟨_, _, left, right⟩ =>
      max (match left with
        | none => 0
        | some child => child.levels) (match right with
        | none => 0
        | some child => child.levels) + 1

def levelsBelow (child : Option Document) : Nat :=
  child.elim 0 levels

theorem levels_node (kind : NodeKind) (value : Option String) (left right : Option Document) :
    levels ⟨kind, value, left, right⟩ = max (levelsBelow left) (levelsBelow right) + 1 := by
  cases left <;> cases right <;> rfl

end Document

namespace Rule

def IsTerm : Rule → Prop
  | term _ => True
  | _ => False

/-- Whether what a rule joins are rules, and not names or literals on their own. -/
def JoinsRules : Rule → Prop
  | junction _ left right => (¬left.IsTerm ∧ left.JoinsRules) ∧ ¬right.IsTerm ∧ right.JoinsRules
  | _ => True

end Rule

theorem Derivation.joinsRules_rule {strictness : Strictness} (derivation : Derivation strictness) :
    ¬derivation.rule.IsTerm ∧ derivation.rule.JoinsRules := by
  induction derivation with
  | condition _ _ _ _ _ => exact ⟨id, trivial⟩
  | group inner ih => exact ih
  | junction left connective right _ _ leftIh rightIh => exact ⟨id, leftIh, rightIh⟩

theorem Rule.joinsRules_of_parse {strictness : Strictness} {text : String} {rule : Rule}
    (read : parse strictness text = .ok rule) : ¬rule.IsTerm ∧ rule.JoinsRules := by
  obtain ⟨derivation, _, _, _, rfl, _⟩ := parse_eq_ok_iff.mp read
  exact derivation.joinsRules_rule

namespace Document

theorem ruleBelow_ofRule {rule : Rule} (side : Side) (joined : ¬rule.IsTerm) :
    ruleBelow side (some (ofRule rule)) = .ok (ofRule rule) := by
  cases rule with
  | junction _ _ _ => rfl
  | condition _ _ _ => rfl
  | term _ => exact absurd trivial joined

theorem toRuleWithin_ofRule {rule : Rule} (joins : rule.JoinsRules) {levels : Nat}
    (fits : (ofRule rule).levels ≤ levels) : toRuleWithin levels (ofRule rule) = .ok rule := by
  induction rule generalizing levels with
  | junction connective left right leftIh rightIh =>
      obtain ⟨⟨leftRule, leftJoins⟩, rightRule, rightJoins⟩ := joins
      rw [ofRule, levels_node] at fits
      simp only [levelsBelow, Option.elim] at fits
      cases levels with
      | zero => omega
      | succ below =>
          have leftMade : toRuleWithin below (ofRule left) = .ok left := leftIh leftJoins (by omega)
          have rightMade : toRuleWithin below (ofRule right) = .ok right :=
            rightIh rightJoins (by omega)
          have connectiveRead : Connective.read connective.text = .ok connective :=
            Connective.read_eq_ok_iff.mpr rfl
          simp only [ofRule, toRuleWithin, readValue, Collection.ok_bind, connectiveRead,
            ruleBelow_ofRule _ leftRule, ruleBelow_ofRule _ rightRule, leftMade, rightMade]
          rfl
  | condition field relation literal =>
      have enough : 2 ≤ levels := fits
      obtain ⟨below, rfl⟩ : ∃ below, levels = below + 2 := ⟨levels - 2, by omega⟩
      have relationRead : Relation.read relation.text = .ok relation :=
        Relation.read_eq_ok_iff.mpr rfl
      simp only [ofRule, toRuleWithin, readValue, Collection.ok_bind, relationRead]
      rfl
  | term text =>
      have enough : 1 ≤ levels := fits
      obtain ⟨below, rfl⟩ : ∃ below, levels = below + 1 := ⟨levels - 1, by omega⟩
      rfl

end Document

end Rulebook
