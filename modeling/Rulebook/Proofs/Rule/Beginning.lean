import Rulebook.Proofs.Rule.Reading

/-!
Beginnings of rules: the groups that are open, and what has been read inside the innermost of them.
A row of tokens is the beginning of a rule in at most one way, so it determines the groups that are
open after it, also where parentheses stand for values. A reading that fails has read a beginning and
at most one token more, and leaves just the groups of that beginning open.
-/

namespace Rulebook

inductive Unclosed (strictness : Strictness) where
  | first
  | second (left : Derivation strictness) (connective : Connective)

inductive Inside (strictness : Strictness) where
  | nothing
  | field (token : Token) (isField : token.IsField strictness)
  | relation (token : Token) (isField : token.IsField strictness) (found : Relation)
  | rule (derivation : Derivation strictness)

/-- The beginning of a rule, with the open groups from the outermost on. -/
structure Beginning (strictness : Strictness) where
  groups : List (Unclosed strictness)
  inside : Inside strictness

variable {strictness : Strictness}

def Unclosed.tokens : Unclosed strictness → List Token
  | first => [.opening]
  | second left connective => .opening :: (left.tokens ++ [.word connective.text])

def Inside.tokens : Inside strictness → List Token
  | nothing => []
  | field token _ => [token]
  | relation token _ found => [token, .word found.text]
  | rule derivation => derivation.tokens

namespace Beginning

def tokens (beginning : Beginning strictness) : List Token :=
  beginning.groups.flatMap Unclosed.tokens ++ beginning.inside.tokens

theorem tokens_nil (inside : Inside strictness) : tokens ⟨[], inside⟩ = inside.tokens := rfl

theorem tokens_first (groups : List (Unclosed strictness)) (inside : Inside strictness) :
    tokens ⟨.first :: groups, inside⟩ = .opening :: tokens ⟨groups, inside⟩ := rfl

theorem tokens_second (left : Derivation strictness) (connective : Connective)
    (groups : List (Unclosed strictness)) (inside : Inside strictness) :
    tokens ⟨.second left connective :: groups, inside⟩ =
      .opening :: (left.tokens ++ .word connective.text :: tokens ⟨groups, inside⟩) := by
  simp [tokens, Unclosed.tokens]

theorem eq_rule_of_tokens {groups : List (Unclosed strictness)} {inside : Inside strictness}
    {derivation : Derivation strictness} {rest : List Token}
    (same : tokens ⟨groups, inside⟩ = derivation.tokens ++ rest) :
    groups = [] ∧ inside = .rule derivation ∧ rest = [] := by
  induction groups generalizing derivation rest with
  | nil =>
      rw [tokens_nil] at same
      have long := derivation.three_le_length_tokens
      have sameLength := congrArg List.length same
      rw [List.length_append] at sameLength
      cases inside with
      | nothing | field _ _ | relation _ _ _ =>
          simp only [Inside.tokens, List.length_cons, List.length_nil] at sameLength
          omega
      | rule inner =>
          rw [Inside.tokens, ← List.append_nil inner.tokens] at same
          obtain ⟨rfl, rfl⟩ := Derivation.tokens_append_inj same
          exact ⟨rfl, rfl, rfl⟩
  | cons group groups ih =>
      cases group with
      | first =>
          rw [tokens_first] at same
          cases derivation with
          | condition _ _ _ isField _ => exact absurd (List.cons.inj same).1.symm isField.1
          | group inner =>
              rw [Derivation.group_tokens_append] at same
              cases (ih (List.cons.inj same).2).2.2
          | junction left _ _ _ _ =>
              rw [Derivation.junction_tokens_append] at same
              cases (ih (List.cons.inj same).2).2.2
      | second left connective =>
          rw [tokens_second] at same
          cases derivation with
          | condition _ _ _ isField _ => exact absurd (List.cons.inj same).1.symm isField.1
          | group inner =>
              rw [Derivation.group_tokens_append] at same
              have after := (Derivation.tokens_append_inj (List.cons.inj same).2).2
              cases (List.cons.inj after).1
          | junction left' connective' right last _ =>
              rw [Derivation.junction_tokens_append] at same
              have after := (Derivation.tokens_append_inj (List.cons.inj same).2).2
              cases (ih (List.cons.inj after).2).2.2

theorem eq_of_tokens_eq_rule {groups : List (Unclosed strictness)} {inside : Inside strictness}
    {derivation : Derivation strictness} (same : tokens ⟨groups, inside⟩ = derivation.tokens) :
    groups = [] ∧ inside = .rule derivation := by
  rw [← List.append_nil derivation.tokens] at same
  obtain ⟨noGroups, whole, -⟩ := eq_rule_of_tokens same
  exact ⟨noGroups, whole⟩

theorem inside_tokens_injective : Function.Injective (@Inside.tokens strictness) := by
  intro inside inside' same
  cases inside with
  | rule derivation => exact (eq_of_tokens_eq_rule (tokens_nil inside' ▸ same.symm)).2.symm
  | nothing | field _ _ | relation _ _ _ =>
      cases inside' with
      | rule derivation => exact (eq_of_tokens_eq_rule (tokens_nil _ ▸ same)).2
      | nothing | field _ _ | relation _ _ _ => grind [Inside.tokens, Relation.text_injective]

theorem inside_tokens_ne (inside : Inside strictness) {group : Unclosed strictness}
    {groups : List (Unclosed strictness)} {inside' : Inside strictness} :
    inside.tokens ≠ tokens ⟨group :: groups, inside'⟩ := by
  intro same
  have opens : ∃ rest, tokens ⟨group :: groups, inside'⟩ = .opening :: rest := by
    cases group with
    | first => exact ⟨_, tokens_first groups inside'⟩
    | second left connective => exact ⟨_, tokens_second left connective groups inside'⟩
  obtain ⟨rest, opens⟩ := opens
  cases inside with
  | nothing => cases same.trans opens
  | field _ isField | relation _ isField _ =>
      exact absurd (List.cons.inj (same.trans opens)).1 isField.1
  | rule derivation => cases (eq_of_tokens_eq_rule same.symm).1

theorem tokens_injective : Function.Injective (@tokens strictness) := by
  rintro ⟨groups, inside⟩ ⟨groups', inside'⟩ same
  induction groups generalizing groups' with
  | nil =>
      cases groups' with
      | nil => exact congrArg (mk []) (inside_tokens_injective same)
      | cons _ _ => exact absurd same (inside_tokens_ne inside)
  | cons group groups ih =>
      cases groups' with
      | nil => exact absurd same.symm (inside_tokens_ne inside')
      | cons group' groups' =>
          cases group with
          | first =>
              cases group' with
              | first =>
                  rw [tokens_first, tokens_first] at same
                  cases ih groups' (List.cons.inj same).2
                  rfl
              | second left connective =>
                  rw [tokens_first, tokens_second] at same
                  cases (eq_rule_of_tokens (List.cons.inj same).2).2.2
          | second left connective =>
              cases group' with
              | first =>
                  rw [tokens_first, tokens_second] at same
                  cases (eq_rule_of_tokens (List.cons.inj same).2.symm).2.2
              | second left' connective' =>
                  rw [tokens_second, tokens_second] at same
                  obtain ⟨rfl, after⟩ := Derivation.tokens_append_inj (List.cons.inj same).2
                  obtain ⟨sameWord, sameTokens⟩ := List.cons.inj after
                  cases Connective.text_injective (Token.word.inj sameWord)
                  cases ih groups' sameTokens
                  rfl

inductive Extends : Beginning strictness → Token → Beginning strictness → Prop
  | opening (groups) : Extends ⟨groups, .nothing⟩ .opening ⟨groups ++ [.first], .nothing⟩
  | field (groups token isField) : Extends ⟨groups, .nothing⟩ token ⟨groups, .field token isField⟩
  | relation (groups token isField found) :
      Extends ⟨groups, .field token isField⟩ (.word found.text)
        ⟨groups, .relation token isField found⟩
  | value (groups token isField found value isValue) :
      Extends ⟨groups, .relation token isField found⟩ value
        ⟨groups, .rule (.condition token found value isField isValue)⟩
  | group (groups inner) :
      Extends ⟨groups ++ [.first], .rule inner⟩ .closing ⟨groups, .rule (.group inner)⟩
  | connective (groups left connective) :
      Extends ⟨groups ++ [.first], .rule left⟩ (.word connective.text)
        ⟨groups ++ [.second left connective], .nothing⟩
  | junction (groups left connective right last isEnd) :
      Extends ⟨groups ++ [.second left connective], .rule right⟩ last
        ⟨groups, .rule (.junction left connective right last isEnd)⟩

variable {before after : Beginning strictness} {token : Token}

theorem tokens_of_extends (step : Extends before token after) :
    after.tokens = before.tokens ++ [token] := by
  cases step <;> simp [tokens, Unclosed.tokens, Inside.tokens, Derivation.tokens]

theorem exists_extends (nonempty : after.tokens ≠ []) :
    ∃ before token, Extends before token after := by
  obtain ⟨groups, inside⟩ := after
  cases inside with
  | nothing =>
      rcases List.eq_nil_or_concat' groups with rfl | ⟨outside, group, rfl⟩
      · exact absurd rfl nonempty
      · cases group with
        | first => exact ⟨_, _, .opening outside⟩
        | second left connective => exact ⟨_, _, .connective outside left connective⟩
  | field token isField => exact ⟨_, _, .field groups token isField⟩
  | relation token isField found => exact ⟨_, _, .relation groups token isField found⟩
  | rule derivation =>
      cases derivation with
      | condition token found value isField isValue =>
          exact ⟨_, _, .value groups token isField found value isValue⟩
      | group inner => exact ⟨_, _, .group groups inner⟩
      | junction left connective right last isEnd =>
          exact ⟨_, _, .junction groups left connective right last isEnd⟩

theorem extends_of_tokens (same : after.tokens = before.tokens ++ [token]) :
    Extends before token after := by
  have nonempty : after.tokens ≠ [] := by simp [same]
  obtain ⟨before', token', step⟩ := exists_extends nonempty
  obtain ⟨sameTokens, rfl⟩ :=
    Derivation.append_token_inj (same.symm.trans (tokens_of_extends step))
  rwa [tokens_injective sameTokens]

/-- Whether a row of tokens begins with a beginning of a rule, and with no longer one. -/
def Longest (beginning : Beginning strictness) (read : List Token) : Prop :=
  beginning.tokens <+: read ∧
    ∀ other : Beginning strictness, other.tokens <+: read →
      other.tokens.length ≤ beginning.tokens.length

theorem longest_tokens (beginning : Beginning strictness) : beginning.Longest beginning.tokens :=
  ⟨List.prefix_refl _, fun _ => List.IsPrefix.length_le⟩

theorem longest_append_token {beginning : Beginning strictness}
    (refused : ∀ after, ¬Extends beginning token after) :
    beginning.Longest (beginning.tokens ++ [token]) := by
  refine ⟨List.prefix_append _ _, ?_⟩
  intro other begins
  by_contra longer
  have notLonger := begins.length_le
  rw [List.length_append, List.length_singleton] at notLonger
  have whole := begins.eq_of_length (by rw [List.length_append, List.length_singleton]; omega)
  exact refused other (extends_of_tokens whole)

theorem Longest.eq {beginning other : Beginning strictness} {read : List Token}
    (longest : beginning.Longest read) (otherLongest : other.Longest read) : beginning = other := by
  have sameLength := Nat.le_antisymm (otherLongest.2 _ longest.1) (longest.2 _ otherLongest.1)
  exact tokens_injective ((List.prefix_of_prefix_length_le longest.1 otherLongest.1
    (Nat.le_of_eq sameLength)).eq_of_length sameLength)

end Beginning

def Unclosed.openGroup : Unclosed strictness → OpenGroup
  | first => .first
  | second left connective => .second connective left.rule

namespace Beginning

def stack (groups : List (Unclosed strictness)) : List OpenGroup :=
  (groups.map Unclosed.openGroup).reverse

@[simp] theorem length_stack (groups : List (Unclosed strictness)) :
    (stack groups).length = groups.length := by
  simp [stack]

@[simp] theorem stack_append (groups : List (Unclosed strictness)) (group : Unclosed strictness) :
    stack (groups ++ [group]) = group.openGroup :: stack groups := by
  simp [stack]

def progress : Beginning strictness → Progress
  | ⟨groups, .nothing⟩ => .pending (.rule (stack groups))
  | ⟨groups, .field token _⟩ => .pending (.relation token.text (stack groups))
  | ⟨groups, .relation token _ found⟩ => .pending (.value token.text found (stack groups))
  | ⟨groups, .rule derivation⟩ => Pending.after derivation.rule (stack groups)

variable {before after : Beginning strictness} {token : Token} {pending : Pending}
variable {outer position : Nat}

theorem pending_of_progress_rule {groups : List (Unclosed strictness)}
    {derivation : Derivation strictness}
    (isPending : progress ⟨groups, .rule derivation⟩ = .pending pending) :
    (∃ outside, groups = outside ++ [.first] ∧
      pending = .connective derivation.rule (stack outside)) ∨
    ∃ outside left connective, groups = outside ++ [.second left connective] ∧
      pending = .closing (.junction connective left.rule derivation.rule) (stack outside) := by
  rcases List.eq_nil_or_concat' groups with rfl | ⟨outside, group, rfl⟩
  · cases isPending
  · rw [progress, stack_append] at isPending
    cases group with
    | first =>
        cases isPending
        exact .inl ⟨outside, rfl, rfl⟩
    | second left connective =>
        cases isPending
        exact .inr ⟨outside, left, connective, rfl, rfl⟩

theorem depth_of_progress (isPending : before.progress = .pending pending) :
    pending.depth = before.groups.length := by
  obtain ⟨groups, inside⟩ := before
  cases inside with
  | nothing | field _ _ | relation _ _ _ =>
      cases isPending
      exact length_stack groups
  | rule derivation =>
      rcases pending_of_progress_rule isPending with
        ⟨outside, rfl, rfl⟩ | ⟨outside, left, connective, rfl, rfl⟩
      · simp [Pending.depth]
      · simp [Pending.depth]

theorem depthAfter_of_progress (isPending : before.progress = .pending pending)
    (notOpens : ¬(token = .opening ∧ before.inside = .nothing)) :
    pending.depthAfter token = before.groups.length := by
  rw [← depth_of_progress isPending]
  obtain ⟨groups, inside⟩ := before
  cases inside with
  | nothing =>
      cases isPending
      exact if_neg fun isOpening => notOpens ⟨isOpening, rfl⟩
  | field _ _ | relation _ _ _ =>
      cases isPending
      rfl
  | rule derivation =>
      rcases pending_of_progress_rule isPending with ⟨_, -, rfl⟩ | ⟨_, _, _, -, rfl⟩
      · rfl
      · rfl

theorem exists_extends_of_next {later : Progress} (isPending : before.progress = .pending pending)
    (step : pending.next strictness outer position token = .ok later) :
    ∃ after, Extends before token after ∧ later = after.progress := by
  obtain ⟨groups, inside⟩ := before
  cases inside with
  | nothing =>
      cases isPending
      rcases Pending.next_rule_eq_ok_iff.mp step with ⟨rfl, -, rfl⟩ | ⟨isField, rfl⟩
      · exact ⟨_, .opening groups, by rw [progress, stack_append, Unclosed.openGroup]⟩
      · exact ⟨_, .field groups token isField, rfl⟩
  | field field isField =>
      cases isPending
      obtain ⟨found, rfl, rfl⟩ := Pending.next_relation_eq_ok_iff.mp step
      exact ⟨_, .relation groups field isField found, rfl⟩
  | relation field isField found =>
      cases isPending
      obtain ⟨isValue, rfl⟩ := Pending.next_value_eq_ok_iff.mp step
      exact ⟨_, .value groups field isField found token isValue, rfl⟩
  | rule derivation =>
      rcases pending_of_progress_rule isPending with
        ⟨outside, rfl, rfl⟩ | ⟨outside, left, connective, rfl, rfl⟩
      · rcases Pending.next_connective_eq_ok_iff.mp step with ⟨rfl, rfl⟩ | ⟨connective, rfl, rfl⟩
        · exact ⟨_, .group outside derivation, rfl⟩
        · refine ⟨_, .connective outside derivation connective, ?_⟩
          rw [progress, stack_append, Unclosed.openGroup]
      · obtain ⟨isEnd, rfl⟩ := Pending.next_closing_eq_ok_iff.mp step
        exact ⟨_, .junction outside left connective derivation token isEnd, rfl⟩

theorem next_of_extends (isPending : before.progress = .pending pending)
    (step : Extends before token after) :
    (token = .opening ∧ before.inside = .nothing) ∨
      pending.next strictness outer position token = .ok after.progress := by
  cases step with
  | opening groups => exact .inl ⟨rfl, rfl⟩
  | field groups token isField =>
      cases isPending
      exact .inr (Pending.next_rule_eq_ok_iff.mpr (.inr ⟨isField, rfl⟩))
  | relation groups field isField found =>
      cases isPending
      exact .inr (Pending.next_relation_eq_ok_iff.mpr ⟨found, rfl, rfl⟩)
  | value groups field isField found value isValue =>
      cases isPending
      exact .inr (Pending.next_value_eq_ok_iff.mpr ⟨isValue, rfl⟩)
  | group groups inner =>
      rw [progress, stack_append] at isPending
      cases isPending
      exact .inr (Pending.next_connective_eq_ok_iff.mpr (.inl ⟨rfl, rfl⟩))
  | connective groups left connective =>
      rw [progress, stack_append] at isPending
      cases isPending
      right
      rw [progress, stack_append]
      exact Pending.next_connective_eq_ok_iff.mpr (.inr ⟨connective, rfl, rfl⟩)
  | junction groups left connective right last isEnd =>
      rw [progress, stack_append] at isPending
      cases isPending
      exact .inr (Pending.next_closing_eq_ok_iff.mpr ⟨isEnd, rfl⟩)

theorem exists_longest_of_next_eq_error {fault : Fault}
    (isPending : before.progress = .pending pending)
    (refused : pending.next strictness outer position token = .error fault) :
    ∃ reached : Beginning strictness, reached.Longest (before.tokens ++ [token]) ∧
      pending.depthAfter token = reached.groups.length := by
  by_cases opens : token = .opening ∧ before.inside = .nothing
  · obtain ⟨groups, inside⟩ := before
    obtain ⟨rfl, rfl⟩ := opens
    cases isPending
    refine ⟨⟨groups ++ [.first], .nothing⟩, ?_, by simp [Pending.depthAfter]⟩
    rw [← tokens_of_extends (.opening groups)]
    exact longest_tokens _
  · refine ⟨before, longest_append_token ?_, ?_⟩
    · intro after step
      rcases next_of_extends isPending step with opensOne | accepted
      · exact opens opensOne
      · cases refused.symm.trans accepted
    · exact depthAfter_of_progress isPending opens

end Beginning

namespace Cursor

variable {outer position : Nat}

theorem exists_longest_of_proceed {beginning : Beginning strictness} {tokens : List Token}
    {fault : Fault} {after : Cursor}
    (failed : proceed strictness outer position tokens beginning.progress = (.error fault, after)) :
    ∃ read, tokens = read ++ after.remaining ∧ (tokens ≠ [] → read ≠ []) ∧
      after.strictness = strictness ∧ after.position = position + read.length ∧
      ∃ reached : Beginning strictness, reached.Longest (beginning.tokens ++ read) ∧
        after.outer = outer + reached.groups.length := by
  induction tokens generalizing beginning position with
  | nil =>
      cases isProgress : beginning.progress with
      | complete rule =>
          rw [isProgress] at failed
          cases failed
      | pending pending =>
          rw [isProgress, proceed, resume] at failed
          cases failed
          refine ⟨[], rfl, fun nonempty => nonempty, rfl, rfl, beginning, ?_, ?_⟩
          · rw [List.append_nil]
            exact beginning.longest_tokens
          · rw [Beginning.depth_of_progress isProgress]
  | cons token tokens ih =>
      cases isProgress : beginning.progress with
      | complete rule =>
          rw [isProgress] at failed
          cases failed
      | pending pending =>
          rw [isProgress, proceed] at failed
          cases step : pending.next strictness outer position token with
          | error fault =>
              rw [resume, step] at failed
              cases failed
              obtain ⟨reached, longest, depth⟩ :=
                Beginning.exists_longest_of_next_eq_error isProgress step
              exact ⟨[token], rfl, fun _ => List.cons_ne_nil _ _, rfl, rfl, reached, longest,
                by rw [depth]⟩
          | ok later =>
              rw [resume_cons step] at failed
              obtain ⟨longer, extended, rfl⟩ := Beginning.exists_extends_of_next isProgress step
              obtain ⟨read, rfl, -, sameStrictness, place, reached, longest, count⟩ := ih failed
              refine ⟨token :: read, rfl, fun _ => List.cons_ne_nil _ _, sameStrictness, ?_,
                reached, ?_, count⟩
              · rw [place, List.length_cons]
                omega
              · rwa [Beginning.tokens_of_extends extended, List.append_assoc] at longest

end Cursor

end Rulebook
