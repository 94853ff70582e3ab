import Rulebook.Rule.Cursor

/-!
The grammar of rules. A derivation shows how a row of tokens is made up of conditions and groups;
no row is made up in two ways, and no rule begins with another or, read strictly, ends with one.
-/

namespace Rulebook

theorem Relation.text_injective {relation other : Relation} (same : relation.text = other.text) :
    relation = other := by
  have named := Relation.ofText?_eq_some_iff.mpr same
  rw [Relation.ofText?_eq_some_iff.mpr rfl] at named
  exact (Option.some.inj named).symm

theorem Connective.text_injective {connective other : Connective}
    (same : connective.text = other.text) : connective = other := by
  have named := Connective.ofText?_eq_some_iff.mpr same
  rw [Connective.ofText?_eq_some_iff.mpr rfl] at named
  exact (Option.some.inj named).symm

namespace Token

def IsField (strictness : Strictness) (token : Token) : Prop :=
  token ≠ opening ∧ (strictness = .strict → token ≠ closing)

def IsValue (strictness : Strictness) (token : Token) : Prop :=
  strictness = .strict → token ≠ opening ∧ token ≠ closing

def IsEnd (strictness : Strictness) (token : Token) : Prop :=
  strictness = .strict → token = closing

theorem isField_lenient_iff {token : Token} : token.IsField .lenient ↔ token ≠ opening := by
  simp [IsField]

theorem isValue_lenient (token : Token) : token.IsValue .lenient := by
  simp [IsValue]

theorem isEnd_lenient (token : Token) : token.IsEnd .lenient := by
  simp [IsEnd]

/-- The largest number of parentheses open at any point of a row of tokens, with some open before.
-/
def nestingFrom : Nat → List Token → Nat
  | depth, [] => depth
  | depth, opening :: tokens => max depth (nestingFrom (depth + 1) tokens)
  | depth, closing :: tokens => max depth (nestingFrom (depth - 1) tokens)
  | depth, word _ :: tokens => nestingFrom depth tokens

def nesting (tokens : List Token) : Nat :=
  nestingFrom 0 tokens

theorem le_nestingFrom (depth : Nat) (tokens : List Token) : depth ≤ nestingFrom depth tokens := by
  induction tokens with
  | nil => exact Nat.le_refl _
  | cons token tokens ih =>
      cases token with
      | opening => exact Nat.le_max_left _ _
      | closing => exact Nat.le_max_left _ _
      | word _ => exact ih

end Token

/-- How a row of tokens is a rule: a condition, or a group around one rule or two. -/
inductive Derivation (strictness : Strictness) where
  | condition (field : Token) (relation : Relation) (value : Token)
      (isField : field.IsField strictness) (isValue : value.IsValue strictness)
  | group (inner : Derivation strictness)
  | junction (left : Derivation strictness) (connective : Connective)
      (right : Derivation strictness) (last : Token) (isEnd : last.IsEnd strictness)

namespace Derivation

variable {strictness : Strictness}

def tokens : Derivation strictness → List Token
  | condition field relation value _ _ => [field, .word relation.text, value]
  | group inner => .opening :: (inner.tokens ++ [.closing])
  | junction left connective right last _ =>
      .opening :: (left.tokens ++ .word connective.text :: (right.tokens ++ [last]))

def rule : Derivation strictness → Rule
  | condition field relation value _ _ => .condition field.text relation value.text
  | group inner => inner.rule
  | junction left connective right _ _ => .junction connective left.rule right.rule

def nesting : Derivation strictness → Nat
  | condition .. => 0
  | group inner => inner.nesting + 1
  | junction left _ right _ _ => max left.nesting right.nesting + 1

def Fits (derivation : Derivation strictness) (openGroups : Nat) : Prop :=
  derivation.nesting = 0 ∨ openGroups + derivation.nesting ≤ maxNesting

theorem fits_group {inner : Derivation strictness} {openGroups : Nat} :
    (group inner).Fits openGroups ↔ openGroups < maxNesting ∧ inner.Fits (openGroups + 1) := by
  simp only [Fits, nesting]
  omega

theorem fits_junction {left right : Derivation strictness} {connective : Connective}
    {last : Token} {isEnd : last.IsEnd strictness} {openGroups : Nat} :
    (junction left connective right last isEnd).Fits openGroups ↔
      openGroups < maxNesting ∧ left.Fits (openGroups + 1) ∧ right.Fits (openGroups + 1) := by
  simp only [Fits, nesting]
  omega

theorem fits_zero {derivation : Derivation strictness} :
    derivation.Fits 0 ↔ derivation.nesting ≤ maxNesting := by
  simp only [Fits]
  omega

theorem tokens_ne_nil (derivation : Derivation strictness) : derivation.tokens ≠ [] := by
  cases derivation <;> simp [tokens]

theorem length_group_tokens (inner : Derivation strictness) :
    (group inner).tokens.length = inner.tokens.length + 2 := by
  simp [tokens]

theorem length_junction_tokens (left right : Derivation strictness) (connective : Connective)
    (last : Token) (isEnd : last.IsEnd strictness) :
    (junction left connective right last isEnd).tokens.length =
      left.tokens.length + right.tokens.length + 3 := by
  simp [tokens]
  omega

theorem three_le_length_tokens (derivation : Derivation strictness) :
    3 ≤ derivation.tokens.length := by
  induction derivation with
  | condition => exact Nat.le_refl _
  | group inner ih =>
      rw [length_group_tokens]
      omega
  | junction left connective right last isEnd ihLeft ihRight =>
      rw [length_junction_tokens]
      omega

theorem group_tokens_append (inner : Derivation strictness) (rest : List Token) :
    (group inner).tokens ++ rest = .opening :: (inner.tokens ++ .closing :: rest) := by
  simp [tokens]

theorem junction_tokens_append (left right : Derivation strictness) (connective : Connective)
    (last : Token) (isEnd : last.IsEnd strictness) (rest : List Token) :
    (junction left connective right last isEnd).tokens ++ rest =
      .opening :: (left.tokens ++ .word connective.text :: (right.tokens ++ last :: rest)) := by
  simp [tokens]

theorem append_condition_tokens (field value : Token) (relation : Relation)
    (isField : field.IsField strictness) (isValue : value.IsValue strictness)
    (before : List Token) :
    before ++ (condition field relation value isField isValue).tokens =
      (before ++ [field, .word relation.text]) ++ [value] := by
  simp [tokens]

theorem append_group_tokens (inner : Derivation strictness) (before : List Token) :
    before ++ (group inner).tokens = ((before ++ [.opening]) ++ inner.tokens) ++ [.closing] := by
  simp [tokens]

theorem append_junction_tokens (left right : Derivation strictness) (connective : Connective)
    (last : Token) (isEnd : last.IsEnd strictness) (before : List Token) :
    before ++ (junction left connective right last isEnd).tokens =
      (((before ++ [.opening] ++ left.tokens) ++ [.word connective.text]) ++ right.tokens) ++
        [last] := by
  simp [tokens]

theorem tokens_append_inj {derivation other : Derivation strictness} {rest rest' : List Token}
    (same : derivation.tokens ++ rest = other.tokens ++ rest') :
    derivation = other ∧ rest = rest' := by
  induction derivation generalizing other rest rest' with
  | condition field relation value isField isValue =>
      cases other with
      | condition field' relation' value' _ _ =>
          simp only [tokens, List.cons_append, List.nil_append, List.cons.injEq,
            Token.word.injEq] at same
          obtain ⟨rfl, sameRelation, rfl, rfl⟩ := same
          obtain rfl := Relation.text_injective sameRelation
          exact ⟨rfl, rfl⟩
      | group _ => exact absurd (List.cons.inj same).1 isField.1
      | junction _ _ _ _ _ => exact absurd (List.cons.inj same).1 isField.1
  | group inner ih =>
      cases other with
      | condition _ _ _ isField _ => exact absurd (List.cons.inj same).1.symm isField.1
      | group inner' =>
          rw [group_tokens_append, group_tokens_append] at same
          obtain ⟨rfl, after⟩ := ih (List.cons.inj same).2
          exact ⟨rfl, (List.cons.inj after).2⟩
      | junction left _ _ _ _ =>
          -- A group is at its end where a junction goes on with a connective.
          rw [group_tokens_append, junction_tokens_append] at same
          have after := (ih (List.cons.inj same).2).2
          simp at after
  | junction left connective right last _ ihLeft ihRight =>
      cases other with
      | condition _ _ _ isField _ => exact absurd (List.cons.inj same).1.symm isField.1
      | group _ =>
          rw [group_tokens_append, junction_tokens_append] at same
          have after := (ihLeft (List.cons.inj same).2).2
          simp at after
      | junction left' connective' right' last' _ =>
          rw [junction_tokens_append, junction_tokens_append] at same
          obtain ⟨rfl, afterLeft⟩ := ihLeft (List.cons.inj same).2
          simp only [List.cons.injEq, Token.word.injEq] at afterLeft
          obtain rfl := Connective.text_injective afterLeft.1
          obtain ⟨rfl, afterRight⟩ := ihRight afterLeft.2
          obtain ⟨rfl, rfl⟩ := List.cons.inj afterRight
          exact ⟨rfl, rfl⟩

theorem eq_of_prefix {derivation other : Derivation strictness} {tokens : List Token}
    (begins : derivation.tokens <+: tokens) (otherBegins : other.tokens <+: tokens) :
    derivation = other := by
  obtain ⟨rest, split⟩ := begins
  obtain ⟨otherRest, otherSplit⟩ := otherBegins
  exact (tokens_append_inj (split.trans otherSplit.symm)).1

theorem group_or_junction {derivation inner : Derivation strictness} {token : Token}
    {rest : List Token} (begins : derivation.tokens <+: .opening :: (inner.tokens ++ token :: rest)) :
    token = .closing ∧ derivation = group inner ∨
      ∃ connective right last isEnd, token = .word connective.text ∧
        derivation = junction inner connective right last isEnd := by
  obtain ⟨after, same⟩ := begins
  cases derivation with
  | condition _ _ _ isField _ => exact absurd (List.cons.inj same).1 isField.1
  | group first =>
      rw [group_tokens_append] at same
      obtain ⟨rfl, sameNext⟩ := tokens_append_inj (List.cons.inj same).2
      exact .inl ⟨(List.cons.inj sameNext).1.symm, rfl⟩
  | junction first connective right last isEnd =>
      rw [junction_tokens_append] at same
      obtain ⟨rfl, sameNext⟩ := tokens_append_inj (List.cons.inj same).2
      exact .inr ⟨connective, right, last, isEnd, (List.cons.inj sameNext).1.symm, rfl⟩

theorem tokens_injective : Function.Injective (@tokens strictness) := by
  intro derivation other same
  exact (tokens_append_inj (congrArg (· ++ []) same)).1

theorem append_token_inj {before before' : List Token} {token token' : Token}
    (same : before ++ [token] = before' ++ [token']) : before = before' ∧ token = token' := by
  simpa using List.append_inj' same rfl

theorem append_tokens_inj {derivation other : Derivation .strict} {before before' : List Token}
    (same : before ++ derivation.tokens = before' ++ other.tokens) :
    before = before' ∧ derivation = other := by
  induction derivation generalizing other before before' with
  | condition field relation value isField isValue =>
      cases other with
      | condition _ _ _ _ _ =>
          obtain ⟨rfl, sameTokens⟩ := List.append_inj' same rfl
          exact ⟨rfl, tokens_injective sameTokens⟩
      | group _ =>
          rw [append_condition_tokens, append_group_tokens] at same
          exact absurd (append_token_inj same).2 (isValue rfl).2
      | junction _ _ _ _ isEnd =>
          rw [append_condition_tokens, append_junction_tokens] at same
          exact absurd ((append_token_inj same).2.trans (isEnd rfl)) (isValue rfl).2
  | group inner ih =>
      cases other with
      | condition _ _ _ _ isValue =>
          rw [append_group_tokens, append_condition_tokens] at same
          exact absurd (append_token_inj same).2.symm (isValue rfl).2
      | group inner' =>
          rw [append_group_tokens, append_group_tokens] at same
          obtain ⟨sameBefore, rfl⟩ := ih (append_token_inj same).1
          exact ⟨(append_token_inj sameBefore).1, rfl⟩
      | junction left connective right last isEnd =>
          -- A group opens right before the rule in it, where a junction has a connective.
          rw [append_group_tokens, append_junction_tokens] at same
          obtain ⟨sameBefore, rfl⟩ := ih (append_token_inj same).1
          exact absurd (append_token_inj sameBefore).2 (by simp)
  | junction left connective right last isEnd ihLeft ihRight =>
      cases other with
      | condition _ _ _ _ isValue =>
          rw [append_junction_tokens, append_condition_tokens] at same
          exact absurd ((append_token_inj same).2.symm.trans (isEnd rfl)) (isValue rfl).2
      | group inner =>
          rw [append_junction_tokens, append_group_tokens] at same
          obtain ⟨sameBefore, rfl⟩ := ihRight (append_token_inj same).1
          exact absurd (append_token_inj sameBefore).2 (by simp)
      | junction left' connective' right' last' isEnd' =>
          rw [append_junction_tokens, append_junction_tokens] at same
          obtain ⟨sameInside, rfl⟩ := append_token_inj same
          obtain ⟨sameBefore, rfl⟩ := ihRight sameInside
          obtain ⟨sameLeft, sameToken⟩ := append_token_inj sameBefore
          obtain rfl := Connective.text_injective (Token.word.inj sameToken)
          obtain ⟨sameOpening, rfl⟩ := ihLeft sameLeft
          exact ⟨(append_token_inj sameOpening).1, rfl⟩

theorem nestingFrom_tokens_append (derivation : Derivation .strict) (depth : Nat)
    (rest : List Token) :
    Token.nestingFrom depth (derivation.tokens ++ rest) =
      max (depth + derivation.nesting) (Token.nestingFrom depth rest) := by
  induction derivation generalizing depth rest with
  | condition field relation value isField isValue =>
      cases field with
      | opening => exact absurd rfl isField.1
      | closing => exact absurd rfl (isField.2 rfl)
      | word _ =>
          cases value with
          | opening => exact absurd rfl (isValue rfl).1
          | closing => exact absurd rfl (isValue rfl).2
          | word _ =>
              have := Token.le_nestingFrom depth rest
              simp only [tokens, nesting, Token.nestingFrom, List.cons_append, List.nil_append]
              omega
  | group inner ih =>
      rw [group_tokens_append, Token.nestingFrom, ih, Token.nestingFrom, nesting]
      have := Token.le_nestingFrom depth rest
      simp only [Nat.add_sub_cancel]
      omega
  | junction left connective right last isEnd ihLeft ihRight =>
      obtain rfl := isEnd rfl
      rw [junction_tokens_append, Token.nestingFrom, ihLeft, Token.nestingFrom, ihRight,
        Token.nestingFrom, nesting]
      have := Token.le_nestingFrom depth rest
      simp only [Nat.add_sub_cancel]
      omega

theorem nesting_tokens (derivation : Derivation .strict) :
    Token.nesting derivation.tokens = derivation.nesting := by
  have whole := nestingFrom_tokens_append derivation 0 []
  simpa [Token.nesting, Token.nestingFrom] using whole

end Derivation

end Rulebook
