import Rulebook.Proofs.Document.Basic

/-!
Which documents are rules: those with every node as its kind asks and none too deep. The rule of
such a document has that document and no other.
-/

namespace Rulebook

namespace Document

/-- The nodes of a document, each with the number of nodes above it. -/
inductive NodeAt : Document → Nat → Document → Prop
  | root (document : Document) : NodeAt document 0 document
  | left {document child node : Document} {depth : Nat} (below : child ∈ document.left)
      (inside : NodeAt child depth node) : NodeAt document (depth + 1) node
  | right {document child node : Document} {depth : Nat} (below : child ∈ document.right)
      (inside : NodeAt child depth node) : NodeAt document (depth + 1) node

/-- Whether a node has the value and the nodes below it that its kind asks for. -/
def Sound (node : Document) : Prop :=
  match node.kind with
  | .junction =>
      (∃ connective : Connective, node.value = some connective.text) ∧
        (∃ child ∈ node.left, child.kind ≠ .term) ∧ ∃ child ∈ node.right, child.kind ≠ .term
  | .condition =>
      (∃ relation : Relation, node.value = some relation.text) ∧
        (∃ child ∈ node.left, child.kind = .term) ∧ ∃ child ∈ node.right, child.kind = .term
  | .term => (∃ text, node.value = some text) ∧ node.left = none ∧ node.right = none

def Shallow (document : Document) : Prop :=
  ∀ depth node, document.NodeAt depth node → depth ≤ maxNesting

structure Valid (document : Document) : Prop where
  sound : ∀ depth node, document.NodeAt depth node → node.Sound
  shallow : document.Shallow

theorem NodeAt.lt_levels {document node : Document} {depth : Nat}
    (isNode : document.NodeAt depth node) : depth < document.levels := by
  induction isNode with
  | root document =>
      obtain ⟨kind, value, left, right⟩ := document
      rw [levels_node]
      omega
  | @left document child node depth below _ ih =>
      obtain ⟨kind, value, left, right⟩ := document
      obtain rfl : left = some child := below
      rw [levels_node, levelsBelow, Option.elim]
      omega
  | @right document child node depth below _ ih =>
      obtain ⟨kind, value, left, right⟩ := document
      obtain rfl : right = some child := below
      rw [levels_node, levelsBelow.eq_def (some child), Option.elim]
      omega

theorem exists_nodeAt_levels (document : Document) :
    ∃ depth node, document.NodeAt depth node ∧ document.levels = depth + 1 := by
  induction document using Document.induction with
  | node kind value left right leftDeepest rightDeepest =>
      rw [levels_node]
      by_cases leftHigher : levelsBelow right ≤ levelsBelow left
      · rw [Nat.max_eq_left leftHigher]
        cases left with
        | none => exact ⟨0, _, .root _, rfl⟩
        | some child =>
            obtain ⟨depth, node, isNode, deepest⟩ := leftDeepest child rfl
            exact ⟨depth + 1, node, .left rfl isNode, congrArg (· + 1) deepest⟩
      · rw [Nat.max_eq_right (by omega)]
        cases right with
        | none => exact absurd (Nat.zero_le _) leftHigher
        | some child =>
            obtain ⟨depth, node, isNode, deepest⟩ := rightDeepest child rfl
            exact ⟨depth + 1, node, .right rfl isNode, congrArg (· + 1) deepest⟩

theorem shallow_iff_levels_le {document : Document} :
    document.Shallow ↔ document.levels ≤ maxNesting + 1 := by
  constructor
  · intro shallow
    obtain ⟨depth, node, isNode, deepest⟩ := exists_nodeAt_levels document
    have := shallow depth node isNode
    omega
  · intro fits depth node isNode
    have := isNode.lt_levels
    omega

/-! What the readers of a node's parts accept. -/

theorem readValue_eq_ok_iff {document : Document} {text : String} :
    document.readValue = .ok text ↔ document.value = some text := by
  unfold readValue
  split <;> simp [*]

theorem readTerm_eq_ok_iff {document : Document} {text : String} :
    document.readTerm = .ok text ↔
      document.value = some text ∧ document.left = none ∧ document.right = none := by
  obtain ⟨kind, value, left, right⟩ := document
  cases left <;> cases right <;> simp [readTerm, readValue_eq_ok_iff]

theorem ruleBelow_eq_ok_iff {side : Side} {child : Option Document} {node : Document} :
    ruleBelow side child = .ok node ↔ child = some node ∧ node.kind ≠ .term := by
  cases child with
  | none => simp [ruleBelow]
  | some child =>
      by_cases isTerm : child.kind = .term
      · simp only [ruleBelow, isTerm, if_true, reduceCtorEq, Option.some.injEq, false_iff, not_and]
        rintro rfl different
        exact different isTerm
      · simp only [ruleBelow, isTerm, if_false, Except.ok.injEq, Option.some.injEq]
        constructor
        · rintro rfl
          exact ⟨rfl, isTerm⟩
        · exact fun same => same.1

theorem eq_term_iff {document : Document} {text : String} :
    document = term text ↔ document.kind = .term ∧ document.value = some text ∧
      document.left = none ∧ document.right = none := by
  cases document
  simp [term]

theorem termBelow_eq_ok_iff {levels : Nat} {side : Side} {child : Option Document}
    {text : String} :
    termBelow levels side child = .ok text ↔ 0 < levels ∧ child = some (term text) := by
  by_cases enough : levels = 0
  · simp [termBelow, enough]
  · cases child with
    | none => simp [termBelow, enough]
    | some child =>
        rw [Option.some.injEq, eq_term_iff, ← readTerm_eq_ok_iff]
        by_cases isTerm : child.kind = .term
        · simp [termBelow, enough, isTerm, Nat.pos_of_ne_zero enough]
        · simp [termBelow, enough, isTerm]

theorem kind_ofRule_eq_term_iff {rule : Rule} : (ofRule rule).kind = .term ↔ rule.IsTerm := by
  cases rule <;> simp [ofRule, term, Rule.IsTerm]

theorem ofRule_injective : Function.Injective ofRule := by
  intro rule other same
  induction rule generalizing other with
  | junction connective left right leftIh rightIh =>
      cases other with
      | junction connective' left' right' =>
          simp only [ofRule, mk.injEq, Option.some.injEq, true_and] at same
          obtain ⟨sameText, sameLeft, sameRight⟩ := same
          obtain rfl := Connective.text_injective sameText
          obtain rfl := leftIh sameLeft
          obtain rfl := rightIh sameRight
          rfl
      | condition _ _ _ => simp [ofRule] at same
      | term _ => simp [ofRule, term] at same
  | condition field relation literal =>
      cases other with
      | junction _ _ _ => simp [ofRule] at same
      | condition field' relation' literal' =>
          simp only [ofRule, term, mk.injEq, Option.some.injEq, true_and, and_true] at same
          obtain ⟨sameText, rfl, rfl⟩ := same
          obtain rfl := Relation.text_injective sameText
          rfl
      | term _ => simp [ofRule, term] at same
  | term text =>
      cases other with
      | junction _ _ _ => simp [ofRule, term] at same
      | condition _ _ _ => simp [ofRule, term] at same
      | term other =>
          simp only [ofRule, term, mk.injEq, Option.some.injEq, true_and, and_true] at same
          rw [same]

theorem ofRule_of_toRuleWithin {levels : Nat} {document : Document} {rule : Rule}
    (made : toRuleWithin levels document = .ok rule) :
    ofRule rule = document ∧ rule.JoinsRules ∧ document.levels ≤ levels := by
  induction levels generalizing document rule with
  | zero => simp [toRuleWithin] at made
  | succ levels ih =>
      obtain ⟨kind, value, left, right⟩ := document
      rw [levels_node]
      cases kind with
      | junction =>
          simp only [toRuleWithin, Collection.bind_eq_ok_iff, readValue_eq_ok_iff,
            Connective.read_eq_ok_iff, ruleBelow_eq_ok_iff] at made
          obtain ⟨_, rfl, connective, rfl, leftNode, ⟨rfl, leftKind⟩, leftRule, leftMade,
            rightNode, ⟨rfl, rightKind⟩, rightRule, rightMade, whole⟩ := made
          obtain rfl := Except.ok.inj whole
          obtain ⟨rfl, leftJoins, leftFits⟩ := ih leftMade
          obtain ⟨rfl, rightJoins, rightFits⟩ := ih rightMade
          rw [ne_eq, kind_ofRule_eq_term_iff] at leftKind rightKind
          refine ⟨rfl, ⟨⟨leftKind, leftJoins⟩, rightKind, rightJoins⟩, ?_⟩
          simp only [levelsBelow, Option.elim]
          omega
      | condition =>
          simp only [toRuleWithin, Collection.bind_eq_ok_iff, readValue_eq_ok_iff,
            Relation.read_eq_ok_iff, termBelow_eq_ok_iff] at made
          -- The terms take the level below the condition, which its readers ask for themselves.
          obtain ⟨_, rfl, relation, rfl, field, ⟨enough, rfl⟩, literal, ⟨_, rfl⟩, whole⟩ := made
          obtain rfl := Except.ok.inj whole
          refine ⟨rfl, trivial, ?_⟩
          simp only [levelsBelow, Option.elim, term, levels_node]
          omega
      | term =>
          simp only [toRuleWithin, Collection.bind_eq_ok_iff, readTerm_eq_ok_iff] at made
          obtain ⟨text, ⟨rfl, rfl, rfl⟩, whole⟩ := made
          obtain rfl := Except.ok.inj whole
          refine ⟨rfl, trivial, ?_⟩
          simp [levelsBelow]

theorem toRuleWithin_eq_ok_iff {levels : Nat} {document : Document} {rule : Rule} :
    toRuleWithin levels document = .ok rule ↔
      ofRule rule = document ∧ rule.JoinsRules ∧ document.levels ≤ levels := by
  constructor
  · exact ofRule_of_toRuleWithin
  · rintro ⟨rfl, joins, fits⟩
    exact toRuleWithin_ofRule joins fits

/-! A rule's own document is refused for its form only: its operators are known. -/

def FailsByDefect {α : Type} (result : Except Fault α) : Prop :=
  ∀ fault, result = .error fault → ∃ defect, fault = .invalidDocument defect

theorem failsByDefect_defect {α : Type} (defect : DocumentDefect) :
    FailsByDefect (.error (.invalidDocument defect) : Except Fault α) := by
  rintro fault ⟨⟩
  exact ⟨defect, rfl⟩

theorem failsByDefect_ok {α : Type} (value : α) : FailsByDefect (.ok value) := by
  intro fault impossible
  cases impossible

theorem FailsByDefect.bind {α β : Type} {result : Except Fault α} {next : α → Except Fault β}
    (first : FailsByDefect result)
    (later : ∀ value, result = .ok value → FailsByDefect (next value)) :
    FailsByDefect (result >>= next) := by
  cases result with
  | ok value => exact later value rfl
  | error fault =>
      obtain ⟨defect, rfl⟩ := first fault rfl
      exact failsByDefect_defect defect

theorem failsByDefect_readValue (document : Document) : FailsByDefect document.readValue := by
  unfold readValue
  split
  · exact failsByDefect_ok _
  · exact failsByDefect_defect _

theorem failsByDefect_readTerm (document : Document) : FailsByDefect document.readTerm := by
  unfold readTerm
  split
  · exact failsByDefect_defect _
  · exact failsByDefect_readValue document

theorem failsByDefect_ruleBelow (side : Side) (child : Option Document) :
    FailsByDefect (ruleBelow side child) := by
  cases child with
  | none => exact failsByDefect_defect _
  | some child =>
      rw [ruleBelow]
      split
      · exact failsByDefect_defect _
      · exact failsByDefect_ok _

theorem failsByDefect_termBelow (levels : Nat) (side : Side) (child : Option Document) :
    FailsByDefect (termBelow levels side child) := by
  unfold termBelow
  split
  · exact failsByDefect_defect _
  · cases child with
    | none => exact failsByDefect_defect _
    | some child =>
        dsimp only
        split
        · exact failsByDefect_readTerm child
        · exact failsByDefect_defect _

theorem failsByDefect_toRuleWithin_ofRule (rule : Rule) (levels : Nat) :
    FailsByDefect (toRuleWithin levels (ofRule rule)) := by
  induction rule generalizing levels with
  | junction connective left right leftIh rightIh =>
      cases levels with
      | zero => exact failsByDefect_defect _
      | succ levels =>
          have connectiveRead : Connective.read connective.text = .ok connective :=
            Connective.read_eq_ok_iff.mpr rfl
          simp only [ofRule, toRuleWithin, readValue, Collection.ok_bind, connectiveRead]
          refine (failsByDefect_ruleBelow _ _).bind ?_
          intro leftNode leftBelow
          obtain ⟨⟨⟩, -⟩ := ruleBelow_eq_ok_iff.mp leftBelow
          refine (leftIh levels).bind ?_
          intro leftRule _
          refine (failsByDefect_ruleBelow _ _).bind ?_
          intro rightNode rightBelow
          obtain ⟨⟨⟩, -⟩ := ruleBelow_eq_ok_iff.mp rightBelow
          refine (rightIh levels).bind ?_
          intro rightRule _
          exact failsByDefect_ok _
  | condition field relation literal =>
      cases levels with
      | zero => exact failsByDefect_defect _
      | succ levels =>
          have relationRead : Relation.read relation.text = .ok relation :=
            Relation.read_eq_ok_iff.mpr rfl
          simp only [ofRule, toRuleWithin, readValue, Collection.ok_bind, relationRead]
          refine (failsByDefect_termBelow _ _ _).bind ?_
          intro field _
          refine (failsByDefect_termBelow _ _ _).bind ?_
          intro literal _
          exact failsByDefect_ok _
  | term text =>
      cases levels with
      | zero => exact failsByDefect_defect _
      | succ levels =>
          refine (failsByDefect_readTerm _).bind ?_
          intro text _
          exact failsByDefect_ok _

/-! The documents of rules are those with sound nodes. -/

theorem nodeAt_term {text : String} {depth : Nat} {node : Document}
    (isNode : (term text).NodeAt depth node) : node = term text := by
  cases isNode with
  | root _ => rfl
  | left below _ => cases below
  | right below _ => cases below

theorem sound_term (text : String) : (term text).Sound :=
  ⟨⟨text, rfl⟩, rfl, rfl⟩

theorem sound_of_nodeAt_ofRule {rule : Rule} (joins : rule.JoinsRules) {depth : Nat}
    {node : Document} (isNode : (ofRule rule).NodeAt depth node) : node.Sound := by
  induction rule generalizing depth with
  | junction connective left right leftIh rightIh =>
      obtain ⟨⟨leftRule, leftJoins⟩, rightRule, rightJoins⟩ := joins
      cases isNode with
      | root _ =>
          refine ⟨⟨connective, rfl⟩, ⟨_, rfl, ?_⟩, _, rfl, ?_⟩
          · exact mt kind_ofRule_eq_term_iff.mp leftRule
          · exact mt kind_ofRule_eq_term_iff.mp rightRule
      | left below inside =>
          obtain rfl := Option.some.inj below
          exact leftIh leftJoins inside
      | right below inside =>
          obtain rfl := Option.some.inj below
          exact rightIh rightJoins inside
  | condition field relation literal =>
      cases isNode with
      | root _ => exact ⟨⟨relation, rfl⟩, ⟨_, rfl, rfl⟩, _, rfl, rfl⟩
      | left below inside =>
          obtain rfl := Option.some.inj below
          obtain rfl := nodeAt_term inside
          exact sound_term field
      | right below inside =>
          obtain rfl := Option.some.inj below
          obtain rfl := nodeAt_term inside
          exact sound_term literal
  | term text =>
      obtain rfl := nodeAt_term isNode
      exact sound_term text

theorem Sound.eq_term {node : Document} (sound : node.Sound) (isTerm : node.kind = .term) :
    ∃ text, node = term text := by
  simp only [Sound, isTerm] at sound
  obtain ⟨⟨text, hasText⟩, noLeft, noRight⟩ := sound
  exact ⟨text, eq_term_iff.mpr ⟨isTerm, hasText, noLeft, noRight⟩⟩

theorem exists_rule_of_sound {document : Document}
    (sound : ∀ depth node, document.NodeAt depth node → node.Sound) :
    ∃ rule, ofRule rule = document ∧ rule.JoinsRules := by
  induction document using Document.induction with
  | node kind value left right leftIh rightIh =>
      have root := sound 0 _ (.root _)
      cases kind with
      | junction =>
          obtain ⟨⟨connective, rfl⟩, ⟨leftNode, rfl, leftKind⟩, rightNode, rfl, rightKind⟩ := root
          obtain ⟨leftRule, rfl, leftJoins⟩ :=
            leftIh leftNode rfl fun depth node inside => sound (depth + 1) node (.left rfl inside)
          obtain ⟨rightRule, rfl, rightJoins⟩ :=
            rightIh rightNode rfl fun depth node inside =>
              sound (depth + 1) node (.right rfl inside)
          rw [ne_eq, kind_ofRule_eq_term_iff] at leftKind rightKind
          exact ⟨.junction connective leftRule rightRule, rfl, ⟨leftKind, leftJoins⟩, rightKind,
            rightJoins⟩
      | condition =>
          obtain ⟨⟨relation, rfl⟩, ⟨leftNode, rfl, leftKind⟩, rightNode, rfl, rightKind⟩ := root
          obtain ⟨field, rfl⟩ := (sound 1 leftNode (.left rfl (.root _))).eq_term leftKind
          obtain ⟨literal, rfl⟩ := (sound 1 rightNode (.right rfl (.root _))).eq_term rightKind
          exact ⟨.condition field relation literal, rfl, trivial⟩
      | term =>
          obtain ⟨text, whole⟩ := root.eq_term rfl
          exact ⟨.term text, whole.symm, trivial⟩

theorem valid_iff {document : Document} :
    document.Valid ↔ ∃ rule, ofRule rule = document ∧ rule.JoinsRules ∧
      document.levels ≤ maxNesting + 1 := by
  constructor
  · intro valid
    obtain ⟨rule, whole, joins⟩ := exists_rule_of_sound valid.sound
    exact ⟨rule, whole, joins, shallow_iff_levels_le.mp valid.shallow⟩
  · rintro ⟨rule, rfl, joins, fits⟩
    exact ⟨fun _ _ isNode => sound_of_nodeAt_ofRule joins isNode, shallow_iff_levels_le.mpr fits⟩

/-- Exactly the valid documents are made rules, each the rule that has that document. -/
theorem toRule_valid_ofRule :
    (∀ document : Document,
      ((∃ rule, document.toRule = .ok rule) ↔ document.Valid) ∧
        ∀ rule, document.toRule = .ok rule → ofRule rule = document) ∧
    ∀ rule : Rule,
      (rule.JoinsRules ∧ (ofRule rule).Shallow → (ofRule rule).toRule = .ok rule) ∧
        (¬(rule.JoinsRules ∧ (ofRule rule).Shallow) →
          ∃ defect, (ofRule rule).toRule = .error (.invalidDocument defect)) := by
  refine ⟨?_, ?_⟩
  · intro document
    simp only [toRule, toRuleWithin_eq_ok_iff, valid_iff, true_and]
    intro rule made
    exact made.1
  · intro rule
    rw [shallow_iff_levels_le]
    constructor
    · rintro ⟨joins, fits⟩
      exact toRuleWithin_ofRule joins fits
    · intro refused
      cases outcome : (ofRule rule).toRule with
      | ok other =>
          obtain ⟨same, joins, fits⟩ := ofRule_of_toRuleWithin outcome
          obtain rfl := ofRule_injective same
          exact absurd ⟨joins, fits⟩ refused
      | error fault =>
          obtain ⟨defect, rfl⟩ := failsByDefect_toRuleWithin_ofRule rule _ fault outcome
          exact ⟨defect, rfl⟩

theorem toRule_valid_ofRule_joined :
    let condition := Rule.condition "a" .greaterOrEqual "1"
    let joined := Rule.junction .or condition condition
    let bare := Rule.junction .and condition (.term "b")
    (joined.JoinsRules ∧ (ofRule joined).Shallow) ∧ (ofRule joined).toRule = .ok joined ∧
      (ofRule joined).Valid ∧ ¬(bare.JoinsRules ∧ (ofRule bare).Shallow) ∧
      ∃ defect, (ofRule bare).toRule = .error (.invalidDocument defect) := by
  intro condition joined bare
  have joins : joined.JoinsRules := ⟨⟨id, trivial⟩, id, trivial⟩
  have shallow : (ofRule joined).Shallow := shallow_iff_levels_le.mpr (by decide)
  have refused : ¬(bare.JoinsRules ∧ (ofRule bare).Shallow) := by
    rintro ⟨⟨-, notTerm, -⟩, -⟩
    exact notTerm trivial
  have made := (toRule_valid_ofRule.2 joined).1 ⟨joins, shallow⟩
  have valid := (toRule_valid_ofRule.1 (ofRule joined)).1.mp ⟨joined, made⟩
  exact ⟨⟨joins, shallow⟩, made, valid, refused, (toRule_valid_ofRule.2 bare).2 refused⟩

end Document

end Rulebook
