import Rulebook.Proofs.Collection.Except
import Rulebook.Proofs.Rule.Reading
import Rulebook.Proofs.Rule.Tokens
import Rulebook.Rule.Join
import Rulebook.Verdict

/-!
What a chain of texts reads as: the rules of the texts joined from the left, as long as no point of
it lies too deep. A text in a chain stays inside its own group, whatever it is.
-/

namespace Rulebook

namespace Rule

def chain? (connective : Connective) : List Rule → Option Rule
  | [] => none
  | first :: rest => some (rest.foldl (junction connective) first)

end Rule

namespace Connective

/-- Whether joined rules hold, given whether each of them does. -/
def joinAll : Connective → List Bool → Bool
  | and, results => results.all id
  | or, results => results.any id

theorem joinAll_single (connective : Connective) (result : Bool) :
    connective.joinAll [result] = result := by
  cases connective <;> simp [joinAll]

theorem joinAll_join (connective : Connective) (first second : Bool) (rest : List Bool) :
    connective.joinAll (connective.join first second :: rest) =
      connective.joinAll (first :: second :: rest) := by
  cases connective
  · simp [joinAll, join, Bool.and_assoc]
  · simp [joinAll, join, Bool.or_assoc]

end Connective

namespace Rule

theorem evaluate_foldl_junction (connective : Connective) (record : Record) (first : Rule)
    (rest : List Rule) :
    (rest.foldl (junction connective) first).evaluate record =
      ((first :: rest).mapM (evaluate record)).map connective.joinAll := by
  induction rest generalizing first with
  | nil =>
      simp only [List.foldl_nil, List.mapM_cons, List.mapM_nil]
      cases first.evaluate record with
      | error fault => rfl
      | ok result => exact congrArg Except.ok (connective.joinAll_single result).symm
  | cons second rest ih =>
      rw [List.foldl_cons, ih]
      simp only [List.mapM_cons, evaluate]
      cases first.evaluate record with
      | error fault => rfl
      | ok result =>
          cases second.evaluate record with
          | error fault => rfl
          | ok result' =>
              cases rest.mapM (evaluate record) with
              | error fault => rfl
              | ok results => exact congrArg Except.ok (connective.joinAll_join _ _ _)

theorem evaluate_chain? {connective : Connective} {rules : List Rule} {whole : Rule}
    (chained : chain? connective rules = some whole) (record : Record) :
    whole.evaluate record = (rules.mapM (evaluate record)).map connective.joinAll := by
  cases rules with
  | nil => simp [chain?] at chained
  | cons first rest =>
      obtain rfl := Option.some.inj chained
      exact evaluate_foldl_junction connective record first rest

end Rule

namespace Token

def joinRow (connective : Connective) (joined row : List Token) : List Token :=
  opening :: (joined ++ .word connective.text :: (opening :: (row ++ [closing]) ++ [closing]))

theorem split_join (connective : Connective) (joined text : String) :
    split ("(" ++ joined ++ " " ++ connective.text ++ " (" ++ text ++ "))") =
      joinRow connective (split joined) (split text) := by
  have chars : ("(" ++ joined ++ " " ++ connective.text ++ " (" ++ text ++ "))").toList =
      [] ++ '(' :: (joined.toList ++ ' ' :: (connective.text.toList ++ ' ' ::
        ([] ++ '(' :: (text.toList ++ ')' :: ([] ++ ')' :: []))))) := by
    simp
  have blank : Text.isBlank ' ' := by decide
  rw [split_eq_splitChars, chars, splitChars_append_opening, splitChars_append_blank blank,
    splitChars_append_blank blank, splitChars_connective, splitChars_append_opening,
    splitChars_append_closing, splitChars_append_closing]
  simp [joinRow, split_eq_splitChars, splitChars, Scan.endWord]

theorem split_chain (connective : Connective) (first : String) {rest : List String}
    (several : rest ≠ []) :
    split (chain connective (first :: rest)) =
      (rest.map split).foldl (joinRow connective) (opening :: (split first ++ [closing])) := by
  cases rest with
  | nil => exact absurd rfl several
  | cons second rest =>
      simp only [chain, ← split_group, List.foldl_map]
      exact (List.foldl_hom split fun joined text => (split_join connective joined text).symm).symm

end Token

namespace Derivation

variable {strictness : Strictness}

def join (connective : Connective) (joined part : Derivation strictness) : Derivation strictness :=
  junction joined connective (group part) .closing fun _ => rfl

theorem tokens_join (connective : Connective) (joined part : Derivation strictness) :
    (join connective joined part).tokens =
      Token.joinRow connective joined.tokens part.tokens := by
  simp [join, tokens, Token.joinRow]

def chain (connective : Connective) (first : Derivation strictness)
    (rest : List (Derivation strictness)) : Derivation strictness :=
  rest.foldl (join connective) (group first)

theorem tokens_foldl_join (connective : Connective) (joined : Derivation strictness)
    (parts : List (Derivation strictness)) :
    (parts.foldl (join connective) joined).tokens =
      (parts.map tokens).foldl (Token.joinRow connective) joined.tokens := by
  rw [List.foldl_map]
  exact (List.foldl_hom tokens fun joined part => (tokens_join connective joined part).symm).symm

theorem tokens_chain {connective : Connective} {first : Derivation strictness}
    {rest : List (Derivation strictness)} {row : List Token} {rows : List (List Token)}
    (same : (first :: rest).map tokens = row :: rows) :
    (chain connective first rest).tokens =
      rows.foldl (Token.joinRow connective) (.opening :: (row ++ [.closing])) := by
  obtain ⟨rfl, rfl⟩ := List.cons.inj same
  rw [chain, tokens_foldl_join, tokens]

theorem rule_foldl_join (connective : Connective) (joined : Derivation strictness)
    (parts : List (Derivation strictness)) :
    (parts.foldl (join connective) joined).rule =
      (parts.map rule).foldl (.junction connective) joined.rule := by
  rw [List.foldl_map]
  exact (List.foldl_hom rule fun joined part => rfl).symm

theorem rule_chain (connective : Connective) (first : Derivation strictness)
    (rest : List (Derivation strictness)) :
    (chain connective first rest).rule =
      (rest.map rule).foldl (.junction connective) first.rule := by
  rw [chain, rule_foldl_join, rule]

end Derivation

def laterNesting : List Nat → Nat
  | [] => 0
  -- A part stands in a group of its own, in that of its junction, and in one for each part after it.
  | part :: later => max (part + later.length + 2) (laterNesting later)

/-- The largest number of groups around a point in a chain, given that number within each part. -/
def chainNesting : List Nat → Nat
  | [] => 0
  | first :: rest => max (first + rest.length + 1) (laterNesting rest)

namespace Derivation

variable {strictness : Strictness}

theorem nesting_foldl_join (connective : Connective) (joined : Derivation strictness)
    (parts : List (Derivation strictness)) :
    (parts.foldl (join connective) joined).nesting =
      max (joined.nesting + parts.length) (laterNesting (parts.map nesting)) := by
  induction parts generalizing joined with
  | nil => simp [laterNesting]
  | cons part parts ih =>
      rw [List.foldl_cons, ih, List.map_cons, laterNesting, List.length_map, List.length_cons]
      simp only [join, nesting]
      omega

theorem nesting_chain (connective : Connective) (first : Derivation strictness)
    (rest : List (Derivation strictness)) :
    (chain connective first rest).nesting = chainNesting ((first :: rest).map nesting) := by
  rw [chain, nesting_foldl_join, List.map_cons, chainNesting, List.length_map, nesting]
  omega

end Derivation

namespace Rule

theorem exists_derivations {texts : List String} {rules : List Rule}
    (read : texts.mapM (parse .strict) = .ok rules) :
    ∃ derivations : List (Derivation .strict),
      derivations.map Derivation.tokens = texts.map Token.split ∧
      derivations.map Derivation.rule = rules := by
  induction texts generalizing rules with
  | nil =>
      obtain rfl := Except.ok.inj read
      exact ⟨[], rfl, rfl⟩
  | cons text texts ih =>
      obtain ⟨rule, restRules, readFirst, readRest, rfl⟩ := Collection.mapM_cons_eq_ok_iff.mp read
      obtain ⟨derivation, derived, -, rfl⟩ := parse_strict_eq_ok_iff.mp readFirst
      obtain ⟨derivations, sameTokens, rfl⟩ := ih readRest
      exact ⟨derivation :: derivations, by simp [derived, sameTokens], rfl⟩

end Rule

theorem Joining.join_chained (connective : Connective) {texts : List String}
    (nonempty : texts ≠ []) :
    chained.join connective texts = .ok (chain connective (texts.map Text.trim)) := by
  rw [join, if_neg nonempty]

theorem Joining.join_single (connective : Connective) (text : String) :
    chained.join connective [text] = .ok (Text.trim text) :=
  join_chained connective (List.cons_ne_nil _ _)

theorem Joining.split_join_several (connective : Connective) (first : String)
    {rest : List String} (several : rest ≠ []) :
    ∃ joined, chained.join connective (first :: rest) = .ok joined ∧
      Token.split joined = (rest.map Token.split).foldl (Token.joinRow connective)
        (.opening :: (Token.split first ++ [.closing])) := by
  have trimmed : (rest.map Text.trim).map Token.split = rest.map Token.split := by
    simp only [List.map_map, Function.comp_def, Token.split_trim]
  have split := Token.split_chain connective (Text.trim first)
    (mt List.map_eq_nil_iff.mp several : rest.map Text.trim ≠ [])
  rw [Token.split_trim, trimmed] at split
  exact ⟨_, join_chained connective (List.cons_ne_nil first rest), split⟩

theorem Joining.parse_join_several (connective : Connective) {texts : List String}
    {rules : List Rule} (several : 2 ≤ texts.length)
    (read : texts.mapM (Rule.parse .strict) = .ok rules) :
    ∃ whole, Rule.chain? connective rules = some whole ∧
      (chained.join connective texts >>= Rule.parse .strict) =
        if chainNesting (texts.map fun text => Token.nesting (Token.split text)) ≤ maxNesting
        then .ok whole else .error (.malformed .tooDeep) := by
  obtain ⟨derivations, sameTokens, rfl⟩ := Rule.exists_derivations read
  cases texts with
  | nil => simp at several
  | cons first rest =>
      cases derivations with
      | nil => simp at sameTokens
      | cons first' rest' =>
          have nonempty : rest ≠ [] := by
            rintro rfl
            simp at several
          obtain ⟨joined, made, split⟩ := split_join_several connective first nonempty
          have derived := (Derivation.tokens_chain sameTokens).trans split.symm
          have nestings : (first' :: rest').map Derivation.nesting =
              (first :: rest).map fun text => Token.nesting (Token.split text) := by
            have := congrArg (List.map Token.nesting) sameTokens
            simpa [Function.comp_def, Derivation.nesting_tokens] using this
          refine ⟨(Derivation.chain connective first' rest').rule, ?_, ?_⟩
          · rw [Derivation.rule_chain]
            rfl
          · rw [made, Collection.ok_bind, ← nestings, ← Derivation.nesting_chain connective]
            exact Rule.parse_strict_of_tokens derived

theorem Joining.parse_join_single (connective : Connective) (strictness : Strictness)
    (text : String) :
    (chained.join connective [text] >>= Rule.parse strictness) = Rule.parse strictness text := by
  rw [join_single, Collection.ok_bind]
  exact Rule.parse_congr (Token.split_trim text) strictness

theorem Joining.chain?_of_parse_join {strictness : Strictness} {connective : Connective}
    {texts : List String} {derivations : List (Derivation strictness)} {whole : Rule}
    (sameTokens : derivations.map Derivation.tokens = texts.map Token.split)
    (read : (chained.join connective texts >>= Rule.parse strictness) = .ok whole) :
    Rule.chain? connective (derivations.map Derivation.rule) = some whole := by
  cases texts with
  | nil => cases read
  | cons first rest =>
      cases derivations with
      | nil => simp at sameTokens
      | cons first' rest' =>
          by_cases single : rest = []
          · subst single
            obtain ⟨sameFirst, noRest⟩ := List.cons.inj sameTokens
            obtain rfl := List.map_eq_nil_iff.mp noRest
            rw [parse_join_single] at read
            obtain ⟨derivation, left, split, -, rfl, -⟩ := Rule.parse_eq_ok_iff.mp read
            rw [← sameFirst, ← List.append_nil first'.tokens] at split
            rw [(Derivation.tokens_append_inj split).1]
            rfl
          · obtain ⟨joined, made, split⟩ := split_join_several connective first single
            rw [made, Collection.ok_bind] at read
            obtain ⟨derivation, left, whole, -, rfl, -⟩ := Rule.parse_eq_ok_iff.mp read
            rw [split, ← Derivation.tokens_chain sameTokens, ← List.append_nil (Derivation.tokens _)]
              at whole
            rw [← (Derivation.tokens_append_inj whole).1, Derivation.rule_chain]
            rfl

/-- A chain of texts that are strictly read reads as their rules joined from the left, unless some
point of it lies too deep. -/
theorem Joining.parse_join_chained (connective : Connective) :
    (∀ (texts : List String) (rules : List Rule), 2 ≤ texts.length →
      texts.mapM (Rule.parse .strict) = .ok rules →
      ∃ whole, Rule.chain? connective rules = some whole ∧
        (chained.join connective texts >>= Rule.parse .strict) =
          (if chainNesting (texts.map fun text => Token.nesting (Token.split text)) ≤ maxNesting
            then .ok whole else .error (.malformed .tooDeep)) ∧
        ∀ record, whole.evaluate record =
          (rules.mapM (Rule.evaluate record)).map connective.joinAll) ∧
    ∀ strictness text,
      (chained.join connective [text] >>= Rule.parse strictness) =
        Rule.parse strictness text := by
  refine ⟨?_, parse_join_single connective⟩
  intro texts rules several read
  obtain ⟨whole, joined, outcome⟩ := parse_join_several connective several read
  exact ⟨whole, joined, outcome, Rule.evaluate_chain? joined⟩

theorem Joining.parse_join_chained_three :
    2 ≤ ["a = 1", "(b > 2)", "c < 3"].length ∧
    ["a = 1", "(b > 2)", "c < 3"].mapM (Rule.parse .strict) =
      .ok [.condition "a" .equal "1", .condition "b" .greater "2", .condition "c" .less "3"] ∧
    (chained.join .or ["a = 1", "(b > 2)", "c < 3"] >>= Rule.parse .strict) =
      .ok (.junction .or (.junction .or (.condition "a" .equal "1") (.condition "b" .greater "2"))
        (.condition "c" .less "3")) := by
  have read : ["a = 1", "(b > 2)", "c < 3"].mapM (Rule.parse .strict) =
      .ok [.condition "a" .equal "1", .condition "b" .greater "2", .condition "c" .less "3"] := by
    cbv
  obtain ⟨whole, joined, outcome, -⟩ := (parse_join_chained .or).1 _ _ (by decide) read
  obtain rfl := Option.some.inj joined
  rw [if_pos (by cbv)] at outcome
  exact ⟨by decide, read, outcome⟩

namespace Derivation

theorem eq_join_of_tokens {connective : Connective} {whole part : Derivation .strict}
    {joined : List Token} (same : whole.tokens = Token.joinRow connective joined part.tokens) :
    ∃ left : Derivation .strict, left.tokens = joined ∧ whole = join connective left part := by
  have row : Token.joinRow connective joined part.tokens =
      .opening :: (((joined ++ [.word connective.text]) ++ (group part).tokens) ++ [.closing]) := by
    simp [Token.joinRow, tokens]
  rw [row] at same
  cases whole with
  | condition _ _ _ isField _ => exact absurd (List.cons.inj same).1 isField.1
  | group inner =>
      have inside : [] ++ inner.tokens =
          (joined ++ [.word connective.text]) ++ (group part).tokens :=
        (append_token_inj (List.cons.inj same).2).1
      have before := (append_tokens_inj inside).1
      simp at before
  | junction left connective' right last isEnd =>
      have split : ((left.tokens ++ [.word connective'.text]) ++ right.tokens) ++ [last] =
          (((joined ++ [.word connective.text]) ++ (group part).tokens) ++ [.closing]) := by
        simpa [tokens] using (List.cons.inj same).2
      obtain ⟨inside, rfl⟩ := append_token_inj split
      obtain ⟨before, rfl⟩ := append_tokens_inj inside
      obtain ⟨sameLeft, sameToken⟩ := append_token_inj before
      obtain rfl := Connective.text_injective (Token.word.inj sameToken)
      exact ⟨left, sameLeft, rfl⟩

theorem eq_junction_of_tokens {connective : Connective} {whole joined : Derivation .strict}
    {row : List Token} (same : whole.tokens = Token.joinRow connective joined.tokens row) :
    ∃ part : Derivation .strict, part.tokens = .opening :: (row ++ [.closing]) ∧
      whole = junction joined connective part .closing fun _ => rfl := by
  cases whole with
  | condition _ _ _ isField _ => exact absurd (List.cons.inj same).1 isField.1
  | group inner =>
      have after := (tokens_append_inj (List.cons.inj same).2).2
      simp at after
  | junction left connective' right last isEnd =>
      obtain ⟨rfl, after⟩ := tokens_append_inj (List.cons.inj same).2
      obtain ⟨sameToken, inside⟩ := List.cons.inj after
      obtain rfl := Connective.text_injective (Token.word.inj sameToken)
      obtain ⟨samePart, rfl⟩ := append_token_inj inside
      exact ⟨right, samePart, rfl⟩

theorem eq_foldl_join_of_tokens {connective : Connective} {whole : Derivation .strict}
    {joined : List Token} {parts : List (Derivation .strict)}
    (same : whole.tokens = (parts.map tokens).foldl (Token.joinRow connective) joined) :
    ∃ left : Derivation .strict,
      left.tokens = joined ∧ whole = parts.foldl (join connective) left := by
  induction parts generalizing joined with
  | nil => exact ⟨whole, same, rfl⟩
  | cons part parts ih =>
      obtain ⟨left', sameLeft, rfl⟩ := ih same
      obtain ⟨left, derived, rfl⟩ := eq_join_of_tokens sameLeft
      exact ⟨left, derived, rfl⟩

theorem nesting_le_foldl_join (connective : Connective) (joined : Derivation .strict)
    (parts : List (Derivation .strict)) :
    joined.nesting ≤ (parts.foldl (join connective) joined).nesting := by
  rw [nesting_foldl_join]
  omega

end Derivation

theorem Joining.exists_left_of_parse_join {connective : Connective} {first : String}
    {rest after : List String} {parts : List (Derivation .strict)} {whole : Rule}
    (several : rest ++ after ≠ []) (sameAfter : parts.map Derivation.tokens = after.map Token.split)
    (read : (chained.join connective (first :: (rest ++ after)) >>= Rule.parse .strict) =
      .ok whole) :
    ∃ left : Derivation .strict,
      left.tokens = (rest.map Token.split).foldl (Token.joinRow connective)
        (.opening :: (Token.split first ++ [.closing])) ∧
      left.nesting ≤ maxNesting ∧
      whole = (parts.map Derivation.rule).foldl (.junction connective) left.rule := by
  obtain ⟨joined, made, split⟩ := split_join_several connective first several
  rw [made, Collection.ok_bind] at read
  obtain ⟨derivation, derived, shallow, rfl⟩ := Rule.parse_strict_eq_ok_iff.mp read
  rw [split, List.map_append, List.foldl_append, ← sameAfter] at derived
  obtain ⟨left, sameLeft, rfl⟩ := Derivation.eq_foldl_join_of_tokens derived
  refine ⟨left, sameLeft, ?_, Derivation.rule_foldl_join connective left parts⟩
  exact Nat.le_trans (Derivation.nesting_le_foldl_join connective left parts) shallow

/-- A text that others around it are strictly read with stays in its own group. -/
theorem Joining.parse_group_of_parse_join {connective : Connective} {before after : List String}
    {text : String} {rulesBefore rulesAfter : List Rule} {whole : Rule}
    (several : before ≠ [] ∨ after ≠ [])
    (readBefore : before.mapM (Rule.parse .strict) = .ok rulesBefore)
    (readAfter : after.mapM (Rule.parse .strict) = .ok rulesAfter)
    (read : (chained.join connective (before ++ text :: after) >>= Rule.parse .strict) =
      .ok whole) :
    ∃ rule, Rule.parse .strict ("(" ++ text ++ ")") = .ok rule ∧
      Rule.chain? connective (rulesBefore ++ rule :: rulesAfter) = some whole := by
  obtain ⟨parts, sameAfter, rfl⟩ := Rule.exists_derivations readAfter
  cases before with
  | nil =>
      obtain rfl := Except.ok.inj readBefore
      have nonempty : [] ++ after ≠ [] := several.resolve_left fun impossible => impossible rfl
      rw [List.nil_append, ← List.nil_append after] at read
      obtain ⟨left, sameLeft, shallow, rfl⟩ := exists_left_of_parse_join nonempty sameAfter read
      refine ⟨left.rule, ?_, rfl⟩
      rw [Rule.parse_strict_eq_ok_iff]
      exact ⟨left, sameLeft.trans (Token.split_group text).symm, shallow, rfl⟩
  | cons first rest =>
      obtain ⟨firstParts, sameBefore, rfl⟩ := Rule.exists_derivations readBefore
      cases firstParts with
      | nil => simp at sameBefore
      | cons first' rest' =>
          have nonempty : (rest ++ [text]) ++ after ≠ [] := by simp
          rw [List.cons_append, List.append_cons] at read
          obtain ⟨left, sameLeft, shallow, rfl⟩ := exists_left_of_parse_join nonempty sameAfter read
          rw [List.map_append, List.foldl_append, ← Derivation.tokens_chain sameBefore] at sameLeft
          obtain ⟨part, derivedPart, rfl⟩ := Derivation.eq_junction_of_tokens sameLeft
          simp only [Derivation.nesting] at shallow
          refine ⟨part.rule, ?_, ?_⟩
          · rw [Rule.parse_strict_eq_ok_iff]
            exact ⟨part, derivedPart.trans (Token.split_group text).symm, by omega, rfl⟩
          · simp [Rule.chain?, Derivation.rule, Derivation.rule_chain]

theorem Joining.parse_group_of_parse_join_bare :
    (["a = 1"] ≠ [] ∨ ["d = 4"] ≠ []) ∧
    ["a = 1"].mapM (Rule.parse .strict) = .ok [.condition "a" .equal "1"] ∧
    ["d = 4"].mapM (Rule.parse .strict) = .ok [.condition "d" .equal "4"] ∧
    (chained.join .or (["a = 1"] ++ "b = 2 AND c = 3" :: ["d = 4"]) >>= Rule.parse .strict) =
      .ok (.junction .or (.junction .or (.condition "a" .equal "1")
        (.junction .and (.condition "b" .equal "2") (.condition "c" .equal "3")))
        (.condition "d" .equal "4")) ∧
    ∃ rule, Rule.parse .strict ("(" ++ "b = 2 AND c = 3" ++ ")") = .ok rule ∧
      Rule.chain? .or ([.condition "a" .equal "1"] ++ rule :: [.condition "d" .equal "4"]) =
        some (.junction .or (.junction .or (.condition "a" .equal "1")
          (.junction .and (.condition "b" .equal "2") (.condition "c" .equal "3")))
          (.condition "d" .equal "4")) := by
  have readBefore : ["a = 1"].mapM (Rule.parse .strict) = .ok [.condition "a" .equal "1"] := by cbv
  have readAfter : ["d = 4"].mapM (Rule.parse .strict) = .ok [.condition "d" .equal "4"] := by cbv
  have read : (chained.join .or (["a = 1"] ++ "b = 2 AND c = 3" :: ["d = 4"]) >>=
      Rule.parse .strict) =
        .ok (.junction .or (.junction .or (.condition "a" .equal "1")
          (.junction .and (.condition "b" .equal "2") (.condition "c" .equal "3")))
          (.condition "d" .equal "4")) := by cbv
  have several : ["a = 1"] ≠ [] ∨ ["d = 4"] ≠ [] := .inl (List.cons_ne_nil _ _)
  exact ⟨several, readBefore, readAfter, read,
    parse_group_of_parse_join several readBefore readAfter read⟩

end Rulebook
