import Rulebook.Proofs.Rule.Reading

/-!
What lenient reading makes of a text, and what it adds to strict reading. The two go over a row of
tokens in step until strict reading finds the text malformed, so lenient reading differs nowhere else.
-/

namespace Rulebook

def Cursor.relaxed (cursor : Cursor) : Cursor :=
  { cursor with strictness := .lenient }

theorem Pending.next_lenient (pending : Pending) (outer position : Nat) (token : Token) :
    pending.next .lenient outer position token = pending.next .strict outer position token ∨
      ∃ cause, pending.next .strict outer position token = .error (.malformed cause) := by
  cases pending with
  | rule groups =>
      by_cases stray : token = .closing
      · right
        exact ⟨.strayClosing position, by simp [next, stray]⟩
      · left
        simp [next, stray]
  | relation field groups => exact .inl rfl
  | value field found groups =>
      by_cases isParenthesis : token = .opening ∨ token = .closing
      · right
        exact ⟨.notValue field position token.text, by simp [next, isParenthesis]⟩
      · left
        simp [next, isParenthesis]
  | connective left groups => exact .inl rfl
  | closing whole groups =>
      by_cases isClosing : token = .closing
      · left
        simp [next, isClosing]
      · right
        exact ⟨.notClosing position token.text, by simp [next, isClosing]⟩

theorem Cursor.resume_lenient (outer : Nat) (pending : Pending) (position : Nat)
    (tokens : List Token) :
    resume .lenient outer pending position tokens =
        ((resume .strict outer pending position tokens).1,
          (resume .strict outer pending position tokens).2.relaxed) ∨
      ∃ cause, (resume .strict outer pending position tokens).1 = .error (.malformed cause) := by
  -- The two are pending at the same thing until strict reading stops, so one step at a time will do.
  induction tokens generalizing pending position with
  | nil => exact .inl rfl
  | cons token tokens ih =>
      rcases pending.next_lenient outer position token with same | ⟨cause, malformed⟩
      · cases step : pending.next .strict outer position token with
        | error fault => simp [resume, same, step, relaxed]
        | ok progress =>
            cases progress with
            | complete rule => simp [resume, same, step, relaxed]
            | pending later => simpa only [resume, same, step] using ih later (position + 1)
      · right
        exact ⟨cause, by simp [resume, malformed]⟩

theorem Rule.parse_lenient_or_malformed (text : String) :
    parse .lenient text = parse .strict text ∨
      ∃ cause, parse .strict text = .error (.malformed cause) := by
  cases split : Token.split text with
  | nil => exact .inl (by simp only [parse, split])
  | cons token tokens =>
      have together := Cursor.resume_lenient 0 (.rule []) 0 (token :: tokens)
      simp only [parse, split, Cursor.next]
      cases read : Cursor.resume .strict 0 (.rule []) 0 (token :: tokens) with
      | mk result cursor =>
          rw [read] at together
          rcases together with same | ⟨cause, rfl⟩
          · rw [same]
            cases result with
            | error fault => exact .inl rfl
            | ok rule =>
                by_cases whole : cursor.remaining = []
                · simp [whole]
                · simp [whole]
          · exact .inr ⟨cause, rfl⟩

/-- Lenient reading says what strict reading says, unless that finds the text malformed. -/
theorem Rule.parse_lenient_of_strict (text : String) :
    (parse .lenient text = parse .strict text ∨
      ∃ cause, parse .strict text = .error (.malformed cause)) ∧
    (∀ rule, parse .strict text = .ok rule → parse .lenient text = .ok rule) ∧
    ∀ operator, parse .strict text = .error (.unknownOperator operator) →
      parse .lenient text = .error (.unknownOperator operator) := by
  have either := parse_lenient_or_malformed text
  have unchanged {result : Except Fault Rule}
      (notMalformed : ∀ cause, result ≠ .error (.malformed cause))
      (read : parse .strict text = result) : parse .lenient text = result := by
    rcases either with same | ⟨cause, malformed⟩
    · rw [same, read]
    · exact absurd (read.symm.trans malformed) (notMalformed cause)
  refine ⟨either, ?_, ?_⟩
  · intro rule
    exact unchanged (by simp)
  · intro operator
    exact unchanged (by simp)

namespace Rule

theorem parse_lenient_eq_ok_iff {text : String} {rule : Rule} :
    parse .lenient text = .ok rule ↔
      ∃ derivation : Derivation .lenient, derivation.tokens <+: Token.split text ∧
        derivation.nesting ≤ maxNesting ∧ derivation.rule = rule := by
  rw [parse_eq_ok_iff]
  constructor
  · rintro ⟨derivation, rest, split, shallow, derived, -⟩
    exact ⟨derivation, ⟨rest, split.symm⟩, shallow, derived⟩
  · rintro ⟨derivation, ⟨rest, split⟩, shallow, derived⟩
    exact ⟨derivation, rest, split.symm, shallow, derived, nofun⟩

/-- Lenient reading accepts exactly the texts whose tokens begin with a row that the grammar
derives. -/
theorem parse_lenient_iff_derivation (text : String) :
    (∀ token : Token, (token.IsField .lenient ↔ token ≠ .opening) ∧ token.IsValue .lenient ∧
      token.IsEnd .lenient) ∧
    (∀ rule, parse .lenient text = .ok rule ↔
      ∃ derivation : Derivation .lenient, derivation.tokens <+: Token.split text ∧
        derivation.nesting ≤ maxNesting ∧ derivation.rule = rule) ∧
    (∀ derivation other : Derivation .lenient, derivation.tokens <+: Token.split text →
      other.tokens <+: Token.split text → derivation = other) ∧
    ∀ (derivation inner : Derivation .lenient) (token : Token) (rest : List Token),
      derivation.tokens <+: .opening :: (inner.tokens ++ token :: rest) →
      (derivation = .group inner ↔ token = .closing) ∧
      ((∃ connective right last isEnd,
        derivation = .junction inner connective right last isEnd) ↔ token ≠ .closing) := by
  refine ⟨?_, fun _ => parse_lenient_eq_ok_iff, fun _ _ => Derivation.eq_of_prefix, ?_⟩
  · intro token
    exact ⟨Token.isField_lenient_iff, token.isValue_lenient, token.isEnd_lenient⟩
  · intro derivation inner token rest begins
    rcases Derivation.group_or_junction begins with
      ⟨rfl, rfl⟩ | ⟨connective, right, last, isEnd, rfl, rfl⟩
    · simp
    · exact ⟨by simp, iff_of_true ⟨connective, right, last, isEnd, rfl⟩ (by simp)⟩

theorem parse_lenient_iff_derivation_unbalanced :
    Token.split "(a = ( ) b" =
      [.opening, .word "a", .word "=", .opening, .closing, .word "b"] ∧
    parse .lenient "(a = ( ) b" = .ok (.condition "a" .equal "(") ∧
    ∀ derivation : Derivation .lenient, derivation.tokens <+: Token.split "(a = ( ) b" →
      ∃ inner, derivation = .group inner := by
  have split : Token.split "(a = ( ) b" =
      [.opening, .word "a", .word "=", .opening, .closing, .word "b"] := by rfl
  obtain ⟨-, accepts, unique, -⟩ := parse_lenient_iff_derivation "(a = ( ) b"
  let group : Derivation .lenient := .group (.condition (.word "a") .equal .opening
    (Token.isField_lenient_iff.mpr (by decide)) (Token.isValue_lenient _))
  have begins : group.tokens <+: Token.split "(a = ( ) b" := ⟨[.word "b"], split.symm⟩
  refine ⟨split, (accepts _).mpr ⟨group, begins, by decide, rfl⟩, ?_⟩
  intro derivation otherBegins
  exact ⟨_, unique derivation group otherBegins begins⟩

end Rule

end Rulebook
