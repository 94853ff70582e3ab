import Rulebook.Proofs.Rule.Reading
import Rulebook.Proofs.Rule.Tokens

/-!
Writing a rule and reading it again. A rule that is read from some text is written with a group
around each of its junctions and no others, which are never more around a point than the text had;
so it is read back as it was.
-/

namespace Rulebook

namespace Rule

/-- The largest number of junctions around a point of the rule. -/
def depth : Rule → Nat
  | junction _ left right => max left.depth right.depth + 1
  | condition .. => 0
  | term _ => 0

/-- Whether a rule is made up of conditions alone, of tokens that may stand in their places. -/
def Writable (strictness : Strictness) : Rule → Prop
  | junction _ left right => left.Writable strictness ∧ right.Writable strictness
  | condition field _ literal =>
      (∃ token : Token, token.Written ∧ token.IsField strictness ∧ token.text = field) ∧
        ∃ token : Token, token.Written ∧ token.IsValue strictness ∧ token.text = literal
  | term _ => False

def OfWords : Rule → Prop
  | junction _ left right => left.OfWords ∧ right.OfWords
  | condition field _ literal => Token.IsWord field ∧ Token.IsWord literal
  | term _ => False

end Rule

namespace Token

theorem isWord_of_strict {token : Token} (written : token.Written) (notOpening : token ≠ opening)
    (notClosing : token ≠ closing) : IsWord token.text := by
  cases token with
  | opening => exact absurd rfl notOpening
  | closing => exact absurd rfl notClosing
  | word text => exact written

theorem exists_field_iff {field : String} :
    (∃ token : Token, token.Written ∧ token.IsField .strict ∧ token.text = field) ↔
      IsWord field := by
  constructor
  · rintro ⟨token, written, isField, rfl⟩
    exact isWord_of_strict written isField.1 (isField.2 rfl)
  · intro isWord
    exact ⟨word field, isWord, ⟨by simp, by simp⟩, rfl⟩

theorem exists_value_iff {literal : String} :
    (∃ token : Token, token.Written ∧ token.IsValue .strict ∧ token.text = literal) ↔
      IsWord literal := by
  constructor
  · rintro ⟨token, written, isValue, rfl⟩
    exact isWord_of_strict written (isValue rfl).1 (isValue rfl).2
  · intro isWord
    exact ⟨word literal, isWord, by simp [IsValue], rfl⟩

theorem split_junction (left right : String) (connective : Connective) :
    split ("(" ++ left ++ " " ++ connective.text ++ " " ++ right ++ ")") =
      opening :: (split left ++ word connective.text :: (split right ++ [closing])) := by
  have chars : ("(" ++ left ++ " " ++ connective.text ++ " " ++ right ++ ")").toList =
      [] ++ '(' :: (left.toList ++ ' ' :: (connective.text.toList ++ ' ' ::
        (right.toList ++ ')' :: []))) := by
    simp
  have blank : Text.isBlank ' ' := by decide
  rw [split_eq_splitChars, chars, splitChars_append_opening, splitChars_append_blank blank,
    splitChars_append_blank blank, splitChars_connective, splitChars_append_closing]
  rfl

theorem split_condition {field literal : Token} (relation : Relation)
    (fieldWritten : field.Written) (literalWritten : literal.Written) :
    split (field.text ++ " " ++ relation.text ++ " " ++ literal.text) =
      [field, word relation.text, literal] := by
  have chars : (field.text ++ " " ++ relation.text ++ " " ++ literal.text).toList =
      field.text.toList ++ ' ' :: (relation.text.toList ++ ' ' :: literal.text.toList) := by
    simp
  have blank : Text.isBlank ' ' := by decide
  rw [split_eq_splitChars, chars, splitChars_append_blank blank, splitChars_append_blank blank,
    splitChars_text fieldWritten, splitChars_relation, splitChars_text literalWritten]
  rfl

end Token

namespace Derivation

variable {strictness : Strictness}

theorem writable_rule (derivation : Derivation strictness)
    (written : ∀ token ∈ derivation.tokens, token.Written) :
    derivation.rule.Writable strictness := by
  induction derivation with
  | condition field relation value isField isValue =>
      have fieldWritten := written field (by simp [tokens])
      have valueWritten := written value (by simp [tokens])
      exact ⟨⟨field, fieldWritten, isField, rfl⟩, ⟨value, valueWritten, isValue, rfl⟩⟩
  | group inner ih =>
      apply ih
      intro token member
      exact written token (by simp [tokens, member])
  | junction left connective right last isEnd ihLeft ihRight =>
      constructor
      · apply ihLeft
        intro token member
        exact written token (by simp [tokens, member])
      · apply ihRight
        intro token member
        exact written token (by simp [tokens, member])

theorem depth_rule_le (derivation : Derivation strictness) :
    derivation.rule.depth ≤ derivation.nesting := by
  induction derivation with
  | condition => exact Nat.le_refl 0
  | group inner ih =>
      simp only [rule, nesting]
      omega
  | junction left connective right last isEnd ihLeft ihRight =>
      simp only [rule, nesting, Rule.depth]
      omega

end Derivation

namespace Rule

variable {strictness : Strictness} {rule : Rule}

theorem writable_strict_iff : rule.Writable .strict ↔ rule.OfWords := by
  induction rule with
  | junction connective left right ihLeft ihRight => exact and_congr ihLeft ihRight
  | condition field relation literal =>
      exact and_congr Token.exists_field_iff Token.exists_value_iff
  | term text => exact Iff.rfl

theorem Writable.exists_derivation (writable : rule.Writable strictness) :
    ∃ derivation : Derivation strictness, derivation.rule = rule ∧
      derivation.tokens = Token.split rule.render ∧ derivation.nesting = rule.depth := by
  induction rule with
  | junction connective left right ihLeft ihRight =>
      obtain ⟨leftDerivation, sameLeft, leftTokens, leftNesting⟩ := ihLeft writable.1
      obtain ⟨rightDerivation, sameRight, rightTokens, rightNesting⟩ := ihRight writable.2
      have isEnd : Token.IsEnd strictness .closing := fun _ => rfl
      refine ⟨.junction leftDerivation connective rightDerivation .closing isEnd, ?_, ?_, ?_⟩
      · rw [Derivation.rule, sameLeft, sameRight]
      · rw [Derivation.tokens, leftTokens, rightTokens, render, Token.split_junction]
      · rw [Derivation.nesting, leftNesting, rightNesting, depth]
  | condition field relation literal =>
      obtain ⟨⟨fieldToken, fieldWritten, isField, rfl⟩, valueToken, valueWritten, isValue, rfl⟩ :=
        writable
      refine ⟨.condition fieldToken relation valueToken isField isValue, rfl, ?_, rfl⟩
      rw [render, Token.split_condition relation fieldWritten valueWritten]
      rfl
  | term text => exact writable.elim

theorem parse_render (writable : rule.Writable strictness) (shallow : rule.depth ≤ maxNesting) :
    parse strictness rule.render = .ok rule := by
  obtain ⟨derivation, derived, sameTokens, sameNesting⟩ := writable.exists_derivation
  rw [parse_eq_ok_iff]
  refine ⟨derivation, [], ?_, ?_, derived, fun _ => rfl⟩
  · rw [sameTokens, List.append_nil]
  · rwa [sameNesting]

-- A lenient text may have parentheses as the field and the literal of a condition.
example : parse .lenient (render (.condition ")" .equal "(")) = .ok (.condition ")" .equal "(") := by
  rfl

theorem writable_of_parse {text : String} (read : parse strictness text = .ok rule) :
    rule.Writable strictness ∧ rule.depth ≤ maxNesting := by
  obtain ⟨derivation, rest, split, shallow, rfl, -⟩ := parse_eq_ok_iff.mp read
  constructor
  · apply derivation.writable_rule
    intro token member
    have inText : token ∈ Token.split text := by
      rw [split]
      exact List.mem_append_left rest member
    exact Token.written_of_mem_split inText
  · exact Nat.le_trans derivation.depth_rule_le shallow

/-- A rule that is read from some text is read again from what is written for it. -/
theorem parse_render_of_parse :
    (∀ strictness text rule, parse strictness text = .ok rule →
      parse strictness rule.render = .ok rule) ∧
    ∀ rule : Rule, (∃ text, parse .strict text = .ok rule) ↔
      rule.OfWords ∧ rule.depth ≤ maxNesting := by
  constructor
  · intro strictness text rule read
    obtain ⟨writable, shallow⟩ := writable_of_parse read
    exact parse_render writable shallow
  · intro rule
    constructor
    · rintro ⟨text, read⟩
      obtain ⟨writable, shallow⟩ := writable_of_parse read
      exact ⟨writable_strict_iff.mp writable, shallow⟩
    · rintro ⟨ofWords, shallow⟩
      exact ⟨rule.render, parse_render (writable_strict_iff.mpr ofWords) shallow⟩

end Rule

end Rulebook
