import Rulebook.Proofs.Rule.Beginning
import Rulebook.Proofs.Rule.Descent
import Rulebook.Proofs.Rule.Failure

/-!
Rules read one after another from one cursor, where a reading may fail and the next one goes on from
where it stopped. The cursor never goes back. The groups that failed readings leave open, and no
others, count as open around the next rule, so it is read as on its own if the groups in it may still
be opened.
-/

namespace Rulebook

def Malformation.place? : Malformation → Option Nat
  | strayClosing position | notValue _ position _ | notClosing position _ => some position
  | _ => none

theorem Pending.place_of_next_eq_error {strictness : Strictness} {outer position place : Nat}
    {pending : Pending} {token : Token} {cause : Malformation}
    (refused : pending.next strictness outer position token = .error (.malformed cause))
    (named : cause.place? = some place) : place = position := by
  cases pending with
  | rule groups =>
      simp only [next] at refused
      grind [Malformation.place?]
  | relation field groups =>
      cases Relation.read_eq_error (Collection.map_eq_error_iff.mp refused)
  | value field found groups =>
      simp only [next] at refused
      grind [Malformation.place?]
  | connective left groups =>
      simp only [next] at refused
      split at refused
      · cases refused
      · cases Connective.read_eq_error (Collection.map_eq_error_iff.mp refused)
  | closing whole groups =>
      simp only [next] at refused
      grind [Malformation.place?]

theorem Beginning.length_groups_le {strictness : Strictness} (beginning : Beginning strictness) :
    beginning.groups.length ≤ beginning.tokens.length := by
  obtain ⟨groups, inside⟩ := beginning
  induction groups with
  | nil => exact Nat.zero_le _
  | cons group groups ih =>
      cases group with
      | first =>
          rw [tokens_first]
          exact Nat.succ_le_succ ih
      | second left connective =>
          rw [tokens_second]
          simp only [List.length_cons, List.length_append] at ih ⊢
          omega

namespace Cursor

theorem place_of_resume {strictness : Strictness} {outer position place : Nat} {pending : Pending}
    {tokens : List Token} {cause : Malformation} {after : Cursor}
    (failed : resume strictness outer pending position tokens = (.error (.malformed cause), after))
    (named : cause.place? = some place) : after.position = place + 1 := by
  induction tokens generalizing pending position with
  | nil =>
      rw [resume] at failed
      cases failed
      cases named
  | cons token tokens ih =>
      cases step : pending.next strictness outer position token with
      | error fault =>
          rw [resume, step] at failed
          cases failed
          rw [Pending.place_of_next_eq_error step named]
      | ok progress =>
          rw [resume_cons step] at failed
          cases progress with
          | complete rule => cases failed
          | pending later => exact ih failed

theorem exists_longest_of_next {cursor after : Cursor} {fault : Fault}
    (failed : cursor.next = (.error fault, after)) :
    ∃ read, cursor.remaining = read ++ after.remaining ∧ (cursor.remaining ≠ [] → read ≠ []) ∧
      after.strictness = cursor.strictness ∧ after.position = cursor.position + read.length ∧
      ∃ reached : Beginning cursor.strictness, reached.Longest read ∧
        after.outer = cursor.outer + reached.groups.length := by
  let start : Beginning cursor.strictness := ⟨[], .nothing⟩
  have fails : proceed cursor.strictness cursor.outer cursor.position cursor.remaining
      start.progress = (.error fault, after) := failed
  exact exists_longest_of_proceed fails

variable {strictness : Strictness} {tokens : List Token} {cursor after : Cursor} {rule : Rule}

theorem le_position_of_next (read : cursor.next = (.ok rule, after)) :
    cursor.position + 3 ≤ after.position ∧ after.outer = cursor.outer := by
  obtain ⟨derivation, rest, -, -, -, rfl⟩ := next_eq_ok_iff.mp read
  exact ⟨Nat.add_le_add_left derivation.three_le_length_tokens _, rfl⟩

theorem exists_read_of_next (cursor : Cursor) (moved : cursor.next.2 = after) :
    ∃ tokens, cursor.remaining = tokens ++ after.remaining ∧
      after.strictness = cursor.strictness ∧ after.position = cursor.position + tokens.length ∧
      after.outer ≤ cursor.outer + tokens.length := by
  cases result : cursor.next.1 with
  | ok rule =>
      obtain ⟨derivation, rest, split, -, -, rfl⟩ := next_eq_ok_iff.mp (Prod.ext result moved)
      exact ⟨derivation.tokens, split, rfl, rfl, Nat.le_add_right _ _⟩
  | error fault =>
      obtain ⟨tokens, split, -, sameStrictness, place, reached, longest, count⟩ :=
        exists_longest_of_next (Prod.ext result moved)
      refine ⟨tokens, split, sameStrictness, place, ?_⟩
      rw [count]
      exact Nat.add_le_add_left (Nat.le_trans reached.length_groups_le longest.1.length_le) _

/-- Where a cursor may be that has read rules from the start of a row of tokens. -/
structure Within (strictness : Strictness) (tokens : List Token) (cursor : Cursor) : Prop where
  strictness_eq : cursor.strictness = strictness
  position_le : cursor.position ≤ tokens.length
  remaining_eq : cursor.remaining = tokens.drop cursor.position
  outer_le : cursor.outer ≤ cursor.position

theorem Within.next (within : cursor.Within strictness tokens) :
    cursor.next.2.Within strictness tokens := by
  obtain ⟨read, split, sameStrictness, place, count⟩ := exists_read_of_next cursor rfl
  obtain ⟨strictness_eq, position_le, remaining_eq, outer_le⟩ := within
  have sameLength := congrArg List.length (remaining_eq.symm.trans split)
  rw [List.length_drop, List.length_append] at sameLength
  refine ⟨sameStrictness.trans strictness_eq, by omega, ?_, by omega⟩
  rw [place, ← List.drop_drop, ← remaining_eq, split, List.drop_left]

theorem Within.length_le_position_iff (within : cursor.Within strictness tokens) :
    tokens.length ≤ cursor.position ↔ cursor.remaining = [] := by
  rw [within.remaining_eq, List.drop_eq_nil_iff]

theorem Within.exists_longest (within : cursor.Within strictness tokens) {fault : Fault}
    (failed : cursor.next = (.error fault, after)) :
    ∃ read, cursor.remaining = read ++ after.remaining ∧
      ∃ reached : Beginning strictness, (∀ other, other.Longest read ↔ other = reached) ∧
        after.outer = cursor.outer + reached.groups.length := by
  obtain rfl := within.strictness_eq
  obtain ⟨read, split, -, -, -, reached, longest, count⟩ := exists_longest_of_next failed
  refine ⟨read, split, reached, ?_, count⟩
  intro other
  constructor
  · intro otherLongest
    exact otherLongest.eq longest
  · rintro rfl
    exact longest

theorem Within.next_eq_ok_iff (within : cursor.Within strictness tokens) :
    cursor.next.1 = .ok rule ↔ ∃ (derivation : Derivation strictness) (rest : List Token),
      Cursor.next { strictness, remaining := tokens.drop cursor.position } =
          (.ok rule, { strictness, position := derivation.tokens.length, remaining := rest }) ∧
      tokens.drop cursor.position = derivation.tokens ++ rest ∧ derivation.rule = rule ∧
      (derivation.nesting = 0 ∨ derivation.nesting + cursor.outer ≤ 256) := by
  obtain rfl := within.strictness_eq
  have fits_iff (derivation : Derivation cursor.strictness) : derivation.Fits cursor.outer ↔
      derivation.nesting = 0 ∨ derivation.nesting + cursor.outer ≤ 256 := by
    rw [Derivation.Fits, maxNesting, Nat.add_comm]
  simp only [← within.remaining_eq]
  constructor
  · intro read
    obtain ⟨derivation, rest, split, fits, derived, -⟩ :=
      Cursor.next_eq_ok_iff.mp (Prod.ext read rfl)
    have shallow : derivation.Fits 0 := by
      rw [Derivation.Fits] at fits ⊢
      omega
    refine ⟨derivation, rest, ?_, split, derived, (fits_iff derivation).mp fits⟩
    exact Cursor.next_eq_ok_iff.mpr
      ⟨derivation, rest, split, shallow, derived, by rw [Nat.zero_add]⟩
  · rintro ⟨derivation, rest, -, split, derived, inRoom⟩
    have read := Cursor.next_eq_ok_iff.mpr
      ⟨derivation, rest, split, (fits_iff derivation).mpr inRoom, derived, rfl⟩
    exact congrArg Prod.fst read

def later (cursor : Cursor) : Nat → Cursor
  | 0 => cursor
  | calls + 1 => (cursor.later calls).next.2

theorem later_next (cursor : Cursor) (calls : Nat) :
    cursor.next.2.later calls = cursor.later (calls + 1) := by
  induction calls with
  | zero => rfl
  | succ calls ih => exact congrArg (fun cursor => cursor.next.2) ih

theorem run_eq_map_later (calls : Nat) (cursor : Cursor) :
    run calls cursor = (List.range calls).map fun call => (cursor.later call).next := by
  induction calls generalizing cursor with
  | zero => rfl
  | succ calls ih =>
      rw [run, ih, List.range_succ_eq_map, List.map_cons, List.map_map]
      simp only [later_next, Function.comp_def]
      rfl

theorem later_within (strictness : Strictness) (tokens : List Token) (calls : Nat) :
    (later { strictness, remaining := tokens } calls).Within strictness tokens := by
  induction calls with
  | zero => exact ⟨rfl, Nat.zero_le _, rfl, Nat.le_refl _⟩
  | succ calls ih => exact ih.next

/-- A cursor counts the groups that failed readings left open, and reads a rule just if there is
room for it inside these. -/
theorem run_counts_open_groups (strictness : Strictness) (tokens : List Token) :
    let start : Cursor := { strictness, remaining := tokens }
    (∀ calls, run calls start = (List.range calls).map fun call => (start.later call).next) ∧
    ∀ calls,
      let cursor := start.later calls
      let after := start.later (calls + 1)
      cursor.Within strictness tokens ∧
      (tokens.length ≤ cursor.position ↔ cursor.remaining = []) ∧
      cursor.position ≤ after.position ∧
      (∀ limit, cursor.remaining.length < limit → descend limit cursor = some cursor.next) ∧
      (∀ rule, cursor.next.1 = .ok rule →
        cursor.position + 3 ≤ after.position ∧ after.outer = cursor.outer) ∧
      (∀ fault, cursor.next.1 = .error fault →
        (cursor.remaining ≠ [] → cursor.position < after.position) ∧
        (∀ cause place, fault = .malformed cause → cause.place? = some place →
          after.position = place + 1) ∧
        ∃ read, cursor.remaining = read ++ after.remaining ∧
          ∃ reached : Beginning strictness, (∀ other, other.Longest read ↔ other = reached) ∧
            after.outer = cursor.outer + reached.groups.length) ∧
      ∀ rule, cursor.next.1 = .ok rule ↔
        ∃ (derivation : Derivation strictness) (rest : List Token),
          Cursor.next { strictness, remaining := tokens.drop cursor.position } =
            (.ok rule, { strictness, position := derivation.tokens.length, remaining := rest }) ∧
          tokens.drop cursor.position = derivation.tokens ++ rest ∧ derivation.rule = rule ∧
          (derivation.nesting = 0 ∨ derivation.nesting + cursor.outer ≤ 256) := by
  intro start
  refine ⟨fun calls => run_eq_map_later calls start, ?_⟩
  intro calls cursor after
  have within : cursor.Within strictness tokens := later_within strictness tokens calls
  have moved : cursor.next.2 = after := rfl
  refine ⟨within, within.length_le_position_iff, ?_, fun _ => cursor.descend_eq_next, ?_, ?_,
    fun rule => within.next_eq_ok_iff⟩
  · obtain ⟨read, -, -, place, -⟩ := exists_read_of_next cursor moved
    omega
  · intro rule read
    exact le_position_of_next (Prod.ext read moved)
  · intro fault failed
    have failed : cursor.next = (.error fault, after) := Prod.ext failed moved
    refine ⟨?_, ?_, within.exists_longest failed⟩
    · intro more
      obtain ⟨read, -, nonempty, -, place, -⟩ := exists_longest_of_next failed
      have := List.length_pos_of_ne_nil (nonempty more)
      omega
    · rintro cause place rfl named
      exact place_of_resume failed named

theorem run_counts_open_groups_left :
    let tokens := Token.split "((a ! (b = 2) c"
    let start : Cursor := { strictness := .strict, remaining := tokens }
    (start.next.1 = .error (.unknownOperator "!") ∧ (start.later 1).position = 4 ∧
      ∃ reached : Beginning .strict, reached.Longest (tokens.take 4) ∧ reached.groups.length = 2) ∧
    ((start.later 1).next.1 = .ok (.condition "b" .equal "2") ∧ (start.later 2).position = 9 ∧
      (start.later 2).outer = 2) ∧
    (start.later 2).next.1 = .error (.malformed (.ended .relation 10)) := by
  intro tokens start
  obtain ⟨-, each⟩ := run_counts_open_groups .strict tokens
  have refused : start.next.1 = .error (.unknownOperator "!") := by rfl
  have accepted : (start.later 1).next.1 = .ok (.condition "b" .equal "2") := by rfl
  obtain ⟨-, -, -, -, -, left, -⟩ := each 0
  obtain ⟨-, -, -, -, kept, -, -⟩ := each 1
  obtain ⟨-, -, read, split, reached, longest, count⟩ := left _ refused
  have sameRead : tokens.take 4 = read := by
    have sameTokens : tokens.take 4 ++ tokens.drop 4 = read ++ tokens.drop 4 :=
      (List.take_append_drop 4 tokens).trans split
    exact List.append_cancel_right sameTokens
  have countLeft : (start.later 1).outer = 2 := by rfl
  refine ⟨⟨refused, by rfl, reached, ?_, ?_⟩, ⟨accepted, by rfl, ?_⟩, by rfl⟩
  · rw [sameRead]
    exact (longest reached).mpr rfl
  · have sameCount : 0 + reached.groups.length = 2 := count.symm.trans countLeft
    rwa [Nat.zero_add] at sameCount
  · exact (kept _ accepted).2.trans countLeft

end Cursor

end Rulebook
