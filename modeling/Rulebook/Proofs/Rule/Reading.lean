import Rulebook.Proofs.Collection.Except
import Rulebook.Proofs.Rule.Derivation

/-!
Reading one token at a time finds exactly the derivations of the grammar: a reading goes over the
tokens of a derivation to what comes after its rule, and one that comes to an end has gone over the
tokens of a derivation.
-/

namespace Rulebook

theorem Token.text_eq_relation_iff {token : Token} {relation : Relation} :
    relation.text = token.text ↔ token = .word relation.text := by
  cases token <;> cases relation <;> simp [Token.text, Relation.text, eq_comm]

theorem Token.text_eq_connective_iff {token : Token} {connective : Connective} :
    connective.text = token.text ↔ token = .word connective.text := by
  cases token <;> cases connective <;> simp [Token.text, Connective.text, eq_comm]

namespace Pending

variable {strictness : Strictness} {outer position : Nat} {token : Token} {progress : Progress}
variable {groups : List OpenGroup}

/-! What a step makes of the token it reads, if it can go on with it. -/

theorem next_rule_eq_ok_iff :
    (rule groups).next strictness outer position token = .ok progress ↔
      (token = .opening ∧ outer + groups.length < maxNesting ∧
          progress = .pending (.rule (.first :: groups))) ∨
        (token.IsField strictness ∧ progress = .pending (.relation token.text groups)) := by
  simp only [next, Token.IsField]
  by_cases isOpening : token = .opening
  · by_cases room : outer + groups.length < maxNesting <;> simp [isOpening, room, eq_comm]
  · by_cases stray : token = .closing ∧ strictness = .strict
    · simp [stray]
    · simp only [isOpening, stray, if_false, Except.ok.injEq]
      grind

theorem next_relation_eq_ok_iff {field : String} :
    (relation field groups).next strictness outer position token = .ok progress ↔
      ∃ found : Relation, token = .word found.text ∧
        progress = .pending (.value field found groups) := by
  simp only [next, ← Token.text_eq_relation_iff, ← Relation.read_eq_ok_iff]
  cases Relation.read token.text <;> simp [Except.map, eq_comm]

theorem next_value_eq_ok_iff {field : String} {found : Relation} :
    (value field found groups).next strictness outer position token = .ok progress ↔
      token.IsValue strictness ∧
        progress = after (.condition field found token.text) groups := by
  simp only [next, Token.IsValue]
  grind

theorem next_connective_eq_ok_iff {left : Rule} :
    (connective left groups).next strictness outer position token = .ok progress ↔
      (token = .closing ∧ progress = after left groups) ∨
        ∃ joint : Connective, token = .word joint.text ∧
          progress = .pending (.rule (.second joint left :: groups)) := by
  by_cases isClosing : token = .closing
  · simp [next, isClosing, eq_comm]
  · simp only [next, isClosing, if_false, false_and, false_or, ← Token.text_eq_connective_iff,
      ← Connective.read_eq_ok_iff]
    cases Connective.read token.text <;> simp [Except.map, eq_comm]

theorem next_closing_eq_ok_iff {whole : Rule} :
    (closing whole groups).next strictness outer position token = .ok progress ↔
      token.IsEnd strictness ∧ progress = after whole groups := by
  simp only [next, Token.IsEnd]
  grind

end Pending

namespace Cursor

variable {strictness : Strictness} {outer position : Nat} {groups : List OpenGroup}

def proceed (strictness : Strictness) (outer position : Nat) (tokens : List Token) :
    Progress → Except Fault Rule × Cursor
  | .complete rule => (.ok rule, ⟨strictness, position, tokens, outer⟩)
  | .pending pending => resume strictness outer pending position tokens

theorem resume_cons {pending : Pending} {progress : Progress} {token : Token}
    {tokens : List Token}
    (step : pending.next strictness outer position token = .ok progress) :
    resume strictness outer pending position (token :: tokens) =
      proceed strictness outer (position + 1) tokens progress := by
  cases progress <;> simp [resume, proceed, step]

theorem resume_eq_ok {pending : Pending} {tokens : List Token} {rule : Rule} {cursor : Cursor}
    (read : resume strictness outer pending position tokens = (.ok rule, cursor)) :
    ∃ token rest progress, tokens = token :: rest ∧
      pending.next strictness outer position token = .ok progress ∧
      proceed strictness outer (position + 1) rest progress = (.ok rule, cursor) := by
  cases tokens with
  | nil => simp [resume] at read
  | cons token rest =>
      cases step : pending.next strictness outer position token with
      | error fault => simp [resume, step] at read
      | ok progress => exact ⟨token, rest, progress, rfl, step, resume_cons step ▸ read⟩

theorem resume_tokens (derivation : Derivation strictness) (position : Nat)
    (groups : List OpenGroup) (rest : List Token) (fits : derivation.Fits (outer + groups.length)) :
    resume strictness outer (.rule groups) position (derivation.tokens ++ rest) =
      proceed strictness outer (position + derivation.tokens.length) rest
        (Pending.after derivation.rule groups) := by
  induction derivation generalizing position groups rest with
  | condition field relation value isField isValue =>
      simp only [Derivation.tokens, List.cons_append, List.nil_append]
      rw [resume_cons (Pending.next_rule_eq_ok_iff.mpr (.inr ⟨isField, rfl⟩)), proceed,
        resume_cons (Pending.next_relation_eq_ok_iff.mpr ⟨relation, rfl, rfl⟩), proceed,
        resume_cons (Pending.next_value_eq_ok_iff.mpr ⟨isValue, rfl⟩)]
      rfl
  | group inner ih =>
      obtain ⟨room, innerFits⟩ := Derivation.fits_group.mp fits
      rw [Derivation.group_tokens_append,
        resume_cons (Pending.next_rule_eq_ok_iff.mpr (.inl ⟨rfl, room, rfl⟩)), proceed,
        ih _ (.first :: groups) _ innerFits, Pending.after, proceed,
        resume_cons (Pending.next_connective_eq_ok_iff.mpr (.inl ⟨rfl, rfl⟩))]
      rw [Derivation.length_group_tokens, Derivation.rule]
      congr 1
      omega
  | junction left connective right last isEnd ihLeft ihRight =>
      obtain ⟨room, leftFits, rightFits⟩ := Derivation.fits_junction.mp fits
      rw [Derivation.junction_tokens_append,
        resume_cons (Pending.next_rule_eq_ok_iff.mpr (.inl ⟨rfl, room, rfl⟩)), proceed,
        ihLeft _ (.first :: groups) _ leftFits, Pending.after, proceed,
        resume_cons (Pending.next_connective_eq_ok_iff.mpr (.inr ⟨connective, rfl, rfl⟩)), proceed,
        ihRight _ (.second connective left.rule :: groups) _ rightFits, Pending.after, proceed,
        resume_cons (Pending.next_closing_eq_ok_iff.mpr ⟨isEnd, rfl⟩)]
      rw [Derivation.length_junction_tokens, Derivation.rule]
      congr 1
      omega

theorem resume_tokens_tooDeep (derivation : Derivation strictness) (position : Nat)
    (groups : List OpenGroup) (rest : List Token)
    (deep : ¬derivation.Fits (outer + groups.length)) :
    (resume strictness outer (.rule groups) position (derivation.tokens ++ rest)).1 =
      .error (.malformed .tooDeep) := by
  induction derivation generalizing position groups rest with
  | condition => simp [Derivation.Fits, Derivation.nesting] at deep
  | group inner ih =>
      rw [Derivation.fits_group] at deep
      rw [Derivation.group_tokens_append]
      by_cases room : outer + groups.length < maxNesting
      · rw [resume_cons (Pending.next_rule_eq_ok_iff.mpr (.inl ⟨rfl, room, rfl⟩)), proceed]
        exact ih _ (.first :: groups) _ fun innerFits => deep ⟨room, innerFits⟩
      · simp [resume, Pending.next, room]
  | junction left connective right last isEnd ihLeft ihRight =>
      rw [Derivation.fits_junction] at deep
      rw [Derivation.junction_tokens_append]
      by_cases room : outer + groups.length < maxNesting
      · rw [resume_cons (Pending.next_rule_eq_ok_iff.mpr (.inl ⟨rfl, room, rfl⟩)), proceed]
        by_cases leftFits : left.Fits (outer + groups.length + 1)
        · rw [resume_tokens left _ (.first :: groups) _ leftFits, Pending.after, proceed,
            resume_cons (Pending.next_connective_eq_ok_iff.mpr (.inr ⟨connective, rfl, rfl⟩)),
            proceed]
          exact ihRight _ (.second connective left.rule :: groups) _
            fun rightFits => deep ⟨room, leftFits, rightFits⟩
        · exact ihLeft _ (.first :: groups) _ leftFits
      · simp [resume, Pending.next, room]

theorem exists_derivation {tokens : List Token} {rule : Rule} {cursor : Cursor}
    (read : resume strictness outer (.rule groups) position tokens = (.ok rule, cursor)) :
    ∃ (derivation : Derivation strictness) (rest : List Token),
      tokens = derivation.tokens ++ rest ∧ derivation.Fits (outer + groups.length) ∧
      proceed strictness outer (position + derivation.tokens.length) rest
        (Pending.after derivation.rule groups) = (.ok rule, cursor) := by
  generalize lengthEq : tokens.length = length
  induction length using Nat.strongRecOn generalizing tokens position groups with
  | ind length ih =>
      obtain ⟨token, inside, _, rfl, step, read⟩ := resume_eq_ok read
      rw [List.length_cons] at lengthEq
      rcases Pending.next_rule_eq_ok_iff.mp step with ⟨rfl, room, rfl⟩ | ⟨isField, rfl⟩
      · obtain ⟨left, afterLeft, rfl, leftFits, read⟩ := ih inside.length (by omega) read rfl
        rw [List.length_append] at lengthEq
        obtain ⟨token, afterToken, _, rfl, step, read⟩ := resume_eq_ok read
        rcases Pending.next_connective_eq_ok_iff.mp step with ⟨rfl, rfl⟩ | ⟨connective, rfl, rfl⟩
        · refine ⟨.group left, afterToken, ?_, ?_, ?_⟩
          · rw [Derivation.group_tokens_append]
          · exact Derivation.fits_group.mpr ⟨room, leftFits⟩
          · rw [← read, Derivation.length_group_tokens, Derivation.rule]
            congr 1
            omega
        · rw [List.length_cons] at lengthEq
          obtain ⟨right, afterRight, rfl, rightFits, read⟩ :=
            ih afterToken.length (by omega) read rfl
          obtain ⟨last, rest, _, rfl, step, read⟩ := resume_eq_ok read
          obtain ⟨isEnd, rfl⟩ := Pending.next_closing_eq_ok_iff.mp step
          refine ⟨.junction left connective right last isEnd, rest, ?_, ?_, ?_⟩
          · rw [Derivation.junction_tokens_append]
          · exact Derivation.fits_junction.mpr ⟨room, leftFits, rightFits⟩
          · rw [← read, Derivation.length_junction_tokens, Derivation.rule]
            congr 1
            omega
      · obtain ⟨_, afterField, _, rfl, step, read⟩ := resume_eq_ok read
        obtain ⟨relation, rfl, rfl⟩ := Pending.next_relation_eq_ok_iff.mp step
        obtain ⟨value, rest, _, rfl, step, read⟩ := resume_eq_ok read
        obtain ⟨isValue, rfl⟩ := Pending.next_value_eq_ok_iff.mp step
        exact ⟨.condition token relation value isField isValue, rest, rfl, .inl rfl, read⟩

theorem next_eq_ok_iff {cursor after : Cursor} {rule : Rule} :
    cursor.next = (.ok rule, after) ↔
      ∃ (derivation : Derivation cursor.strictness) (rest : List Token),
        cursor.remaining = derivation.tokens ++ rest ∧ derivation.Fits cursor.outer ∧
        derivation.rule = rule ∧
        after = { cursor with
          position := cursor.position + derivation.tokens.length
          remaining := rest } := by
  constructor
  · intro read
    obtain ⟨derivation, rest, split, fits, finish⟩ := exists_derivation read
    simp only [Pending.after, proceed, Prod.mk.injEq, Except.ok.injEq] at finish
    exact ⟨derivation, rest, split, fits, finish.1, finish.2.symm⟩
  · rintro ⟨derivation, rest, split, fits, rfl, rfl⟩
    rw [next, split, resume_tokens derivation cursor.position [] rest fits]
    rfl

end Cursor

namespace Rule

theorem parse_of_next {strictness : Strictness} {text : String} {result : Except Fault Rule}
    {after : Cursor} (nonempty : Token.split text ≠ [])
    (read : Cursor.next { strictness, remaining := Token.split text } = (result, after)) :
    parse strictness text = (result >>= fun rule =>
      if strictness = .strict ∧ after.remaining ≠ [] then
        .error (.malformed (.trailing after.position (after.remaining.map Token.text)))
      else .ok rule) := by
  unfold parse
  split
  next empty => exact absurd empty nonempty
  next =>
    rw [read]
    cases result with
    | ok rule => rfl
    | error fault => rfl

theorem parse_eq_ok_iff_next {strictness : Strictness} {text : String} {rule : Rule} :
    parse strictness text = .ok rule ↔
      ∃ cursor, Cursor.next { strictness, remaining := Token.split text } = (.ok rule, cursor) ∧
        (strictness = .strict → cursor.remaining = []) := by
  by_cases empty : Token.split text = []
  · simp [parse, empty, Cursor.next, Cursor.resume]
  · obtain ⟨⟨result, after⟩, read⟩ : ∃ outcome, Cursor.next
        { strictness, remaining := Token.split text } = outcome := ⟨_, rfl⟩
    rw [parse_of_next empty read, read]
    cases result with
    | error fault => simp
    | ok found =>
        rw [Collection.ok_bind]
        by_cases trailing : strictness = .strict ∧ after.remaining ≠ []
        · simp [trailing]
        · simp only [trailing, if_false, Except.ok.injEq, Prod.mk.injEq]
          grind

theorem parse_eq_ok_iff {strictness : Strictness} {text : String} {rule : Rule} :
    parse strictness text = .ok rule ↔
      ∃ (derivation : Derivation strictness) (rest : List Token),
        Token.split text = derivation.tokens ++ rest ∧ derivation.nesting ≤ maxNesting ∧
        derivation.rule = rule ∧ (strictness = .strict → rest = []) := by
  simp only [parse_eq_ok_iff_next, Cursor.next_eq_ok_iff]
  constructor
  · rintro ⟨_, ⟨derivation, rest, split, fits, derived, rfl⟩, whole⟩
    exact ⟨derivation, rest, split, Derivation.fits_zero.mp fits, derived, whole⟩
  · rintro ⟨derivation, rest, split, shallow, derived, whole⟩
    exact ⟨_, ⟨derivation, rest, split, Derivation.fits_zero.mpr shallow, derived, rfl⟩, whole⟩

theorem parse_strict_eq_ok_iff {text : String} {rule : Rule} :
    parse .strict text = .ok rule ↔
      ∃ derivation : Derivation .strict, derivation.tokens = Token.split text ∧
        derivation.nesting ≤ maxNesting ∧ derivation.rule = rule := by
  rw [parse_eq_ok_iff]
  constructor
  · rintro ⟨derivation, rest, split, shallow, derived, whole⟩
    rw [whole rfl, List.append_nil] at split
    exact ⟨derivation, split.symm, shallow, derived⟩
  · rintro ⟨derivation, split, shallow, derived⟩
    exact ⟨derivation, [], by rw [split, List.append_nil], shallow, derived, fun _ => rfl⟩

theorem parse_strict_of_tokens {text : String} {derivation : Derivation .strict}
    (derived : derivation.tokens = Token.split text) :
    parse .strict text =
      if derivation.nesting ≤ maxNesting then .ok derivation.rule
      else .error (.malformed .tooDeep) := by
  by_cases shallow : derivation.nesting ≤ maxNesting
  · rw [if_pos shallow, parse_strict_eq_ok_iff]
    exact ⟨derivation, derived, shallow, rfl⟩
  · have deep : ¬derivation.Fits (0 + ([] : List OpenGroup).length) := by
      rwa [List.length_nil, Derivation.fits_zero]
    have failed := Cursor.resume_tokens_tooDeep derivation 0 [] [] deep
    rw [List.append_nil, derived] at failed
    have nonempty : Token.split text ≠ [] := derived ▸ derivation.tokens_ne_nil
    rw [if_neg shallow, parse_of_next nonempty (Prod.ext failed rfl), Collection.error_bind]

theorem parse_congr {text other : String} (same : Token.split text = Token.split other)
    (strictness : Strictness) : parse strictness text = parse strictness other := by
  rw [parse, parse, same]

def unread (strictness : Strictness) (text : String) : List Token :=
  (Cursor.next { strictness, remaining := Token.split text }).2.remaining

theorem unread_strict {text : String} {rule : Rule} (read : parse .strict text = .ok rule) :
    unread .strict text = [] := by
  obtain ⟨cursor, finish, whole⟩ := parse_eq_ok_iff_next.mp read
  rw [unread, finish]
  exact whole rfl

theorem exists_derivation_of_unread {strictness : Strictness} {text : String} {rule : Rule}
    (read : parse strictness text = .ok rule) (whole : unread strictness text = []) :
    ∃ derivation : Derivation strictness,
      derivation.tokens = Token.split text ∧ derivation.rule = rule := by
  obtain ⟨cursor, finish, -⟩ := parse_eq_ok_iff_next.mp read
  rw [unread, finish] at whole
  obtain ⟨derivation, rest, split, -, derived, rfl⟩ := Cursor.next_eq_ok_iff.mp finish
  obtain rfl : rest = [] := whole
  rw [List.append_nil] at split
  exact ⟨derivation, split.symm, derived⟩

/-- Strict reading accepts exactly the texts whose tokens, all of them, the grammar derives, none in
two ways. -/
theorem parse_strict_iff_derivation (text : String) :
    (∀ rule, parse .strict text = .ok rule ↔
      ∃ derivation : Derivation .strict, derivation.tokens = Token.split text ∧
        derivation.nesting ≤ maxNesting ∧ derivation.rule = rule) ∧
    Function.Injective (@Derivation.tokens .strict) :=
  ⟨fun _ => parse_strict_eq_ok_iff, Derivation.tokens_injective⟩

end Rule

end Rulebook
