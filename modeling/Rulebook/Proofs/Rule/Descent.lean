import Mathlib.Data.Nat.PSub
import Rulebook.Proofs.Rule.Reading

/-!
Reading by descent, where a group calls for a reading of each rule in it. The open groups are not
kept but counted, one more where a group opens and one less where it ends, and a message about the
token just read counts its place one back from the cursor. No count has to go below zero, and there
is a token for each call inside another one, so a descent does what reading with a stack of open
groups does.
-/

namespace Rulebook

namespace Cursor

/-- What a descent comes to: nothing, if a count would go below zero or there are more calls inside
one another than allowed. -/
abbrev Descent := Option (Except Fault Rule × Cursor)

def andThen (descent : Descent) (use : Rule → Cursor → Descent) : Descent :=
  match descent with
  | some (.ok rule, cursor) => use rule cursor
  | failed => failed

def take (expected : Expectation) (use : Token → Cursor → Descent) (cursor : Cursor) : Descent :=
  match cursor.remaining with
  | [] => some (.error (.malformed (.ended expected cursor.position)), cursor)
  | token :: rest =>
      use token { cursor with position := cursor.position + 1, remaining := rest }

def refuseLast (cause : Nat → Malformation) (cursor : Cursor) : Descent :=
  cursor.position.ppred.map fun place => (.error (.malformed (cause place)), cursor)

def takeLast (expected : Expectation) (refused : Token → Bool) (cause : Token → Nat → Malformation)
    (whole : Token → Rule) : Cursor → Descent :=
  take expected fun token cursor =>
    if refused token ∧ cursor.strictness = .strict then cursor.refuseLast (cause token)
    else some (.ok (whole token), cursor)

def descendValue (field : Token) (relation : Relation) : Cursor → Descent :=
  takeLast .value (fun value => value = .opening ∨ value = .closing)
    (fun value place => .notValue field.text place value.text)
    fun value => .condition field.text relation value.text

def descendCondition (field : Token) (cursor : Cursor) : Descent :=
  if field = .closing ∧ cursor.strictness = .strict then cursor.refuseLast .strayClosing
  else
    cursor.take .relation fun token cursor =>
      match Relation.read token.text with
      | .error fault => some (.error fault, cursor)
      | .ok relation => cursor.descendValue field relation

def endJunction (whole : Rule) : Cursor → Descent :=
  takeLast .closing (fun last => last ≠ .closing) (fun last place => .notClosing place last.text)
    fun _ => whole

def descendSecond (call : Cursor → Descent) (left : Rule) : Cursor → Descent :=
  take .connective fun token cursor =>
    if token = .closing then some (.ok left, cursor)
    else
      match Connective.read token.text with
      | .error fault => some (.error fault, cursor)
      | .ok connective =>
          andThen (call cursor) fun right => endJunction (.junction connective left right)

def descendGroup (call : Cursor → Descent) (cursor : Cursor) : Descent :=
  andThen (call cursor) (descendSecond call)

def leaveGroup (rule : Rule) (cursor : Cursor) : Descent :=
  cursor.outer.ppred.map fun outer => (.ok rule, { cursor with outer })

def descend : Nat → Cursor → Descent
  | 0, _ => none
  | limit + 1, cursor =>
      cursor.take .rule fun token cursor =>
        if token = .opening then
          let inside := { cursor with outer := cursor.outer + 1 }
          if maxNesting < inside.outer then some (.error (.malformed .tooDeep), inside)
          else andThen (descendGroup (descend limit) inside) leaveGroup
        else cursor.descendCondition token

variable {strictness : Strictness} {outer depth depth' bound bound' : Nat}
variable {groups groups' : List OpenGroup}

def Follows (strictness : Strictness) (outer depth : Nat) (groups : List OpenGroup) (bound : Nat)
    (descent : Descent) (read : Except Fault Rule × Cursor) : Prop :=
  (∃ rule position rest, descent = some (.ok rule, ⟨strictness, position, rest, depth⟩) ∧
    rest.length < bound ∧
    read = proceed strictness outer position rest (Pending.after rule groups)) ∨
  ∃ fault cursor, descent = some (.error fault, cursor) ∧ read = (.error fault, cursor)

theorem Follows.andThen {descent : Descent} {use : Rule → Cursor → Descent}
    {read : Except Fault Rule × Cursor}
    (first : Follows strictness outer depth groups bound descent read)
    (goesOn : ∀ rule position rest, rest.length < bound →
      Follows strictness outer depth' groups' bound' (use rule ⟨strictness, position, rest, depth⟩)
        (proceed strictness outer position rest (Pending.after rule groups))) :
    Follows strictness outer depth' groups' bound' (andThen descent use) read := by
  rcases first with ⟨rule, position, rest, rfl, fewer, rfl⟩ | ⟨fault, cursor, rfl, rfl⟩
  · exact goesOn rule position rest fewer
  · exact .inr ⟨fault, cursor, rfl, rfl⟩

theorem Follows.mono {descent : Descent} {read : Except Fault Rule × Cursor}
    (follows : Follows strictness outer depth groups bound descent read) (le : bound ≤ bound') :
    Follows strictness outer depth groups bound' descent read := by
  rcases follows with ⟨rule, position, rest, descent, fewer, read⟩ | failed
  · exact .inl ⟨rule, position, rest, descent, Nat.lt_of_lt_of_le fewer le, read⟩
  · exact .inr failed

theorem follows_takeLast (pending : Pending) {refused : Token → Bool}
    {cause : Token → Nat → Malformation} {whole : Token → Rule} (position : Nat)
    (tokens : List Token) (counted : outer + pending.depth = depth)
    (keepsDepth : ∀ token, pending.depthAfter token = pending.depth)
    (next : ∀ token, pending.next strictness outer position token =
      if refused token ∧ strictness = .strict then .error (.malformed (cause token position))
      else .ok (Pending.after (whole token) groups)) :
    Follows strictness outer depth groups tokens.length
      (takeLast pending.expectation refused cause whole ⟨strictness, position, tokens, depth⟩)
      (resume strictness outer pending position tokens) := by
  subst counted
  cases tokens with
  | nil => exact .inr ⟨_, _, rfl, rfl⟩
  | cons token rest =>
      have step := next token
      by_cases isRefused : refused token ∧ strictness = .strict
      · right
        rw [if_pos isRefused] at step
        rw [resume, step, keepsDepth]
        exact ⟨_, _, if_pos isRefused, rfl⟩
      · left
        rw [if_neg isRefused] at step
        rw [resume_cons step]
        exact ⟨_, _, _, if_neg isRefused, Nat.lt_succ_self _, rfl⟩

theorem follows_descendValue (field : Token) (relation : Relation) (position : Nat)
    (tokens : List Token) (groups : List OpenGroup) :
    Follows strictness outer (outer + groups.length) groups tokens.length
      (descendValue field relation ⟨strictness, position, tokens, outer + groups.length⟩)
      (resume strictness outer (.value field.text relation groups) position tokens) := by
  refine follows_takeLast (.value field.text relation groups) position tokens rfl (fun _ => rfl) ?_
  intro token
  simp [Pending.next]

theorem follows_descendCondition {field : Token} (notOpening : field ≠ .opening) (position : Nat)
    (tokens : List Token) (groups : List OpenGroup) :
    Follows strictness outer (outer + groups.length) groups tokens.length
      (descendCondition field ⟨strictness, position + 1, tokens, outer + groups.length⟩)
      (resume strictness outer (.rule groups) position (field :: tokens)) := by
  by_cases stray : field = .closing ∧ strictness = .strict
  · right
    simp [descendCondition, refuseLast, resume, Pending.next, Pending.depthAfter, stray]
  · have isField : field.IsField strictness :=
      ⟨notOpening, fun isStrict isClosing => stray ⟨isClosing, isStrict⟩⟩
    rw [resume_cons (Pending.next_rule_eq_ok_iff.mpr (.inr ⟨isField, rfl⟩)), proceed,
      descendCondition, if_neg stray]
    cases tokens with
    | nil => exact .inr ⟨_, _, rfl, rfl⟩
    | cons token tokens =>
        cases found : Relation.read token.text with
        | error fault =>
            right
            simp [take, resume, Pending.next, Pending.depthAfter, Pending.depth, found, Except.map]
        | ok relation =>
            have isRelation := Token.text_eq_relation_iff.mp (Relation.read_eq_ok_iff.mp found)
            rw [resume_cons (Pending.next_relation_eq_ok_iff.mpr ⟨relation, isRelation, rfl⟩)]
            simp only [take, found]
            exact (follows_descendValue field relation _ tokens groups).mono (Nat.le_succ _)

theorem follows_endJunction (whole : Rule) (position : Nat) (tokens : List Token)
    (groups : List OpenGroup) :
    Follows strictness outer (outer + groups.length + 1) groups tokens.length
      (endJunction whole ⟨strictness, position, tokens, outer + groups.length + 1⟩)
      (resume strictness outer (.closing whole groups) position tokens) := by
  refine follows_takeLast (.closing whole groups) position tokens rfl (fun _ => rfl) ?_
  intro token
  simp [Pending.next]

def CallFollows (strictness : Strictness) (outer bound : Nat) (call : Cursor → Descent) : Prop :=
  ∀ position tokens groups, tokens.length < bound →
    Follows strictness outer (outer + groups.length) groups tokens.length
      (call ⟨strictness, position, tokens, outer + groups.length⟩)
      (resume strictness outer (.rule groups) position tokens)

theorem follows_descendSecond {call : Cursor → Descent}
    (follows : CallFollows strictness outer bound call) (left : Rule) (position : Nat)
    (tokens : List Token) (groups : List OpenGroup) (few : tokens.length < bound) :
    Follows strictness outer (outer + groups.length + 1) groups tokens.length
      (descendSecond call left ⟨strictness, position, tokens, outer + groups.length + 1⟩)
      (resume strictness outer (.connective left groups) position tokens) := by
  cases tokens with
  | nil => exact .inr ⟨_, _, rfl, rfl⟩
  | cons token rest =>
      rw [List.length_cons] at few
      by_cases isClosing : token = .closing
      · left
        rw [resume_cons (Pending.next_connective_eq_ok_iff.mpr (.inl ⟨isClosing, rfl⟩))]
        exact ⟨left, _, rest, if_pos isClosing, Nat.lt_succ_self _, rfl⟩
      · simp only [descendSecond, take, if_neg isClosing]
        cases found : Connective.read token.text with
        | error fault =>
            right
            simp [resume, Pending.next, Pending.depthAfter, Pending.depth, isClosing, found,
              Except.map, Nat.add_assoc]
        | ok connective =>
            have isConnective :=
              Token.text_eq_connective_iff.mp (Connective.read_eq_ok_iff.mp found)
            rw [resume_cons
              (Pending.next_connective_eq_ok_iff.mpr (.inr ⟨connective, isConnective, rfl⟩))]
            refine Follows.andThen
              (follows (position + 1) rest (.second connective left :: groups) (by omega)) ?_
            intro right position last fewer
            refine Follows.mono
              (follows_endJunction (.junction connective left right) position last groups) ?_
            exact Nat.le_of_lt (Nat.lt_succ_of_lt fewer)

theorem follows_descendGroup {call : Cursor → Descent}
    (follows : CallFollows strictness outer bound call) (position : Nat) (tokens : List Token)
    (groups : List OpenGroup) (few : tokens.length < bound) :
    Follows strictness outer (outer + groups.length + 1) groups tokens.length
      (descendGroup call ⟨strictness, position, tokens, outer + groups.length + 1⟩)
      (resume strictness outer (.rule (.first :: groups)) position tokens) := by
  refine (follows position tokens (.first :: groups) few).andThen ?_
  intro left position rest fewer
  have ends := follows_descendSecond follows left position rest groups (Nat.lt_trans fewer few)
  exact ends.mono (Nat.le_of_lt fewer)

theorem callFollows_descend (limit : Nat) : CallFollows strictness outer limit (descend limit) := by
  induction limit with
  | zero =>
      intro position tokens groups few
      exact absurd few (Nat.not_lt_zero _)
  | succ limit ih =>
      intro position tokens groups few
      cases tokens with
      | nil => exact .inr ⟨_, _, rfl, rfl⟩
      | cons token rest =>
          rw [List.length_cons] at few
          by_cases opens : token = .opening
          · by_cases room : outer + groups.length < maxNesting
            · rw [resume_cons (Pending.next_rule_eq_ok_iff.mpr (.inl ⟨opens, room, rfl⟩)), proceed]
              have notDeep : ¬maxNesting < outer + groups.length + 1 := by omega
              simp only [descend, take, if_pos opens, if_neg notDeep]
              refine (follows_descendGroup ih (position + 1) rest groups (by omega)).andThen ?_
              intro rule position last fewer
              exact .inl ⟨rule, position, last, rfl, Nat.lt_succ_of_lt fewer, rfl⟩
            · right
              have deep : maxNesting < outer + groups.length + 1 := by omega
              simp only [descend, take, if_pos opens, if_pos deep]
              simp [resume, Pending.next, Pending.depthAfter, opens, room, Nat.add_assoc]
          · simp only [descend, take, if_neg opens]
            exact (follows_descendCondition opens position rest groups).mono (Nat.le_succ _)

/-- A descent does what reading does, with no count in it below zero. -/
theorem descend_eq_next (cursor : Cursor) {limit : Nat} (enough : cursor.remaining.length < limit) :
    descend limit cursor = some cursor.next := by
  rcases callFollows_descend limit cursor.position cursor.remaining [] enough with
    ⟨rule, position, rest, descent, -, read⟩ | ⟨fault, after, descent, read⟩
  · exact descent.trans (congrArg some read.symm)
  · exact descent.trans (congrArg some read.symm)

end Cursor

end Rulebook
