import Rulebook.Proofs.Collection.Except
import Rulebook.Proofs.Rule.Reading

/-!
Where reading fails. As long as no token is refused, reading can still go on to the end of a rule;
once one is refused, nothing after it matters. So reading stops right after the first token that no
rule has in its place, or at the end of the tokens if there is no such token.
-/

namespace Rulebook

theorem Relation.read_eq_error {text : String} {fault : Fault}
    (refused : Relation.read text = .error fault) : fault = .unknownOperator text := by
  unfold read at refused
  split at refused
  · cases refused
  · exact (Except.error.inj refused).symm

theorem Connective.read_eq_error {text : String} {fault : Fault}
    (refused : Connective.read text = .error fault) : fault = .unknownOperator text := by
  unfold read at refused
  split at refused
  · cases refused
  · exact (Except.error.inj refused).symm

namespace Pending

variable {strictness : Strictness} {outer position : Nat} {pending : Pending} {token : Token}

theorem next_eq_error {fault : Fault}
    (refused : pending.next strictness outer position token = .error fault) :
    fault = .unknownOperator token.text ∨ ∃ cause, fault = .malformed cause := by
  cases pending with
  | rule groups =>
      right
      simp only [next] at refused
      grind
  | relation field groups =>
      exact .inl (Relation.read_eq_error (Collection.map_eq_error_iff.mp refused))
  | value field found groups =>
      right
      simp only [next] at refused
      grind
  | connective left groups =>
      simp only [next] at refused
      split at refused
      · cases refused
      · exact .inl (Connective.read_eq_error (Collection.map_eq_error_iff.mp refused))
  | closing whole groups =>
      right
      simp only [next] at refused
      grind

def completion : Pending → List String
  | rule groups => "a" :: "=" :: "1" :: List.replicate groups.length ")"
  | relation _ groups => "=" :: "1" :: List.replicate groups.length ")"
  | value _ _ groups => "1" :: List.replicate groups.length ")"
  | connective _ groups | closing _ groups => ")" :: List.replicate groups.length ")"

end Pending

namespace Cursor

variable {strictness : Strictness} {outer : Nat}

theorem isOk_proceed_closings (rule : Rule) (groups : List OpenGroup) (position : Nat) :
    (proceed strictness outer position ((List.replicate groups.length ")").map Token.ofText)
      (Pending.after rule groups)).1.isOk := by
  have closing : Token.ofText ")" = .closing := rfl
  induction groups generalizing rule position with
  | nil => rfl
  | cons group groups ih =>
      rw [List.length_cons, List.replicate_succ, List.map_cons, closing]
      cases group with
      | first =>
          rw [Pending.after, proceed,
            resume_cons (Pending.next_connective_eq_ok_iff.mpr (.inl ⟨rfl, rfl⟩))]
          exact ih rule (position + 1)
      | second joint left =>
          rw [Pending.after, proceed,
            resume_cons (Pending.next_closing_eq_ok_iff.mpr ⟨fun _ => rfl, rfl⟩)]
          exact ih (.junction joint left rule) (position + 1)

/-- Whether reading that goes on with some texts as tokens comes to the end of a rule. -/
def Completes (strictness : Strictness) (outer : Nat) (pending : Pending) (position : Nat)
    (texts : List String) : Prop :=
  (resume strictness outer pending position (texts.map Token.ofText)).1.isOk

theorem completes_cons_iff {pending later : Pending} {position : Nat} {text : String}
    {texts : List String}
    (step : pending.next strictness outer position (Token.ofText text) = .ok (.pending later)) :
    Completes strictness outer pending position (text :: texts) ↔
      Completes strictness outer later (position + 1) texts := by
  rw [Completes, List.map_cons, resume_cons step]
  exact Iff.rfl

theorem not_completes_cons {pending : Pending} {position : Nat} {fault : Fault} {text : String}
    (refused : pending.next strictness outer position (Token.ofText text) = .error fault)
    (texts : List String) : ¬Completes strictness outer pending position (text :: texts) := by
  simp [Completes, resume, refused, Except.isOk, Except.toBool]

theorem completes_closings {pending : Pending} {position : Nat} {text : String} {rule : Rule}
    {groups : List OpenGroup}
    (step : pending.next strictness outer position (Token.ofText text) =
      .ok (Pending.after rule groups)) :
    Completes strictness outer pending position
      (text :: List.replicate groups.length ")") := by
  rw [Completes, List.map_cons, resume_cons step]
  exact isOk_proceed_closings rule groups (position + 1)

theorem completes_completion_value (field : String) (found : Relation) (groups : List OpenGroup)
    (position : Nat) :
    Completes strictness outer (.value field found groups) position
      (Pending.value field found groups).completion := by
  have isValue : (Token.ofText "1").IsValue strictness := fun _ => by decide
  exact completes_closings (Pending.next_value_eq_ok_iff.mpr ⟨isValue, rfl⟩)

theorem completes_completion_relation (field : String) (groups : List OpenGroup)
    (position : Nat) :
    Completes strictness outer (.relation field groups) position
      (Pending.relation field groups).completion := by
  apply (completes_cons_iff (Pending.next_relation_eq_ok_iff.mpr ⟨.equal, rfl, rfl⟩)).mpr
  exact completes_completion_value field .equal groups (position + 1)

theorem completes_completion (pending : Pending) (position : Nat) :
    Completes strictness outer pending position pending.completion := by
  cases pending with
  | rule groups =>
      have isField : (Token.ofText "a").IsField strictness := ⟨by decide, fun _ => by decide⟩
      apply (completes_cons_iff (Pending.next_rule_eq_ok_iff.mpr (.inr ⟨isField, rfl⟩))).mpr
      exact completes_completion_relation _ groups (position + 1)
  | relation field groups => exact completes_completion_relation field groups position
  | value field found groups => exact completes_completion_value field found groups position
  | connective left groups =>
      exact completes_closings (Pending.next_connective_eq_ok_iff.mpr (.inl ⟨rfl, rfl⟩))
  | closing whole groups =>
      exact completes_closings (Pending.next_closing_eq_ok_iff.mpr ⟨fun _ => rfl, rfl⟩)

theorem resume_eq_error {pending : Pending} {position : Nat} {texts : List String} {fault : Fault}
    {cursor : Cursor}
    (failed : resume strictness outer pending position (texts.map Token.ofText) =
      (.error fault, cursor)) :
    (cursor.position = position + texts.length ∧
      (∃ expected, fault = .malformed (.ended expected (position + texts.length))) ∧
      ∃ more, Completes strictness outer pending position (texts ++ more)) ∨
    ∃ before text rest, texts = before ++ text :: rest ∧
      cursor.position = position + before.length + 1 ∧
      (∃ more, Completes strictness outer pending position (before ++ more)) ∧
      (∀ more, ¬Completes strictness outer pending position (before ++ text :: more)) ∧
      ∀ operator, fault = .unknownOperator operator → operator = text := by
  -- No error comes late: wherever reading has got to without a refusal, it can still go on.
  induction texts generalizing pending position with
  | nil =>
      obtain ⟨sameFault, rfl⟩ := Prod.mk.inj failed
      have ended := (Except.error.inj sameFault).symm
      exact .inl ⟨rfl, ⟨_, ended⟩, _, completes_completion pending position⟩
  | cons text texts ih =>
      cases step : pending.next strictness outer position (Token.ofText text) with
      | error refusal =>
          rw [List.map_cons, resume, step] at failed
          obtain ⟨sameFault, rfl⟩ := Prod.mk.inj failed
          obtain rfl := Except.error.inj sameFault
          have goesOn : ∃ more, Completes strictness outer pending position more :=
            ⟨_, completes_completion pending position⟩
          refine .inr ⟨[], text, texts, rfl, rfl, goesOn, not_completes_cons step, ?_⟩
          rintro operator rfl
          rcases Pending.next_eq_error step with unknown | ⟨cause, malformed⟩
          · simpa using unknown
          · cases malformed
      | ok progress =>
          rw [List.map_cons, resume_cons step] at failed
          cases progress with
          | complete rule => cases failed
          | pending later =>
              have moved (texts : List String) :
                  Completes strictness outer pending position (text :: texts) ↔
                    Completes strictness outer later (position + 1) texts :=
                completes_cons_iff step
              rcases ih failed with ⟨atEnd, ⟨expected, ended⟩, more, completes⟩ |
                ⟨before, refused, rest, rfl, place, ⟨more, completes⟩, fails, operator⟩
              · refine .inl ⟨?_, ⟨expected, ?_⟩, more, (moved _).mpr completes⟩
                · rw [atEnd, List.length_cons]
                  omega
                · rw [ended, List.length_cons]
                  congr 2
                  omega
              · refine .inr ⟨text :: before, refused, rest, rfl, ?_, ⟨more, (moved _).mpr completes⟩,
                  fun more => mt (moved _).mp (fails more), operator⟩
                rw [place, List.length_cons]
                omega

end Cursor

/-- Whether a rule is read from the start of a row of tokens that are written as the texts. -/
def Rule.StartsIn (strictness : Strictness) (texts : List String) : Prop :=
  (Cursor.next { strictness, remaining := texts.map Token.ofText }).1.isOk

theorem Rule.startsIn_iff {strictness : Strictness} {texts : List String} :
    StartsIn strictness texts ↔ Cursor.Completes strictness 0 (.rule []) 0 texts := Iff.rfl

/-- Reading fails at the end of the tokens, or right after the first one with which there is no rule
any more. -/
theorem Cursor.position_of_next_eq_error {strictness : Strictness} {texts : List String}
    {fault : Fault} {after : Cursor}
    (failed : Cursor.next { strictness, remaining := texts.map Token.ofText } =
      (.error fault, after)) :
    (after.position = texts.length ∧
      (∃ expected, fault = .malformed (.ended expected texts.length)) ∧
      ∃ more, Rule.StartsIn strictness (texts ++ more)) ∨
    ∃ before text rest, texts = before ++ text :: rest ∧ after.position = before.length + 1 ∧
      (∃ more, Rule.StartsIn strictness (before ++ more)) ∧
      (∀ more, ¬Rule.StartsIn strictness (before ++ text :: more)) ∧
      ∀ operator, fault = .unknownOperator operator → operator = text := by
  have located := resume_eq_error failed
  simpa only [Nat.zero_add, Rule.startsIn_iff] using located

theorem Cursor.position_of_next_eq_error_connective :
    let texts := ["(", "a", "=", "1", "XOR", "b"]
    let after : Cursor := ⟨.strict, 5, [.word "b"], 1⟩
    Cursor.next { strictness := .strict, remaining := texts.map Token.ofText } =
        (.error (.unknownOperator "XOR"), after) ∧
      (∃ more, Rule.StartsIn .strict (["(", "a", "=", "1"] ++ more)) ∧
      ∀ more, ¬Rule.StartsIn .strict (["(", "a", "=", "1"] ++ "XOR" :: more) := by
  intro texts after
  have failed : Cursor.next { strictness := .strict, remaining := texts.map Token.ofText } =
      (.error (.unknownOperator "XOR"), after) := by rfl
  refine ⟨failed, ?_⟩
  rcases position_of_next_eq_error failed with ⟨atEnd, -⟩ |
    ⟨before, text, rest, split, place, goesOn, fails, -⟩
  · cases atEnd
  · have sameLength : ["(", "a", "=", "1"].length = before.length := Nat.succ.inj place
    have split : ["(", "a", "=", "1"] ++ ["XOR", "b"] = before ++ text :: rest := split
    obtain ⟨rfl, same⟩ := List.append_inj split sameLength
    obtain ⟨rfl, -⟩ := List.cons.inj same
    exact ⟨goesOn, fails⟩

end Rulebook
