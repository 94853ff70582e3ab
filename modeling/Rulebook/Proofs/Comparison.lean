import Mathlib.Logic.ExistsUnique
import Rulebook.Proofs.Verdict

/-!
How the value of a field compares with a literal, whichever relation is asked for: it fails for all
relations or for none, and the relations that hold fit together. Single quotes around a literal make
no difference.
-/

namespace Rulebook

open Number

namespace Text

theorem dropEdges_eq_self_of_ends {edge : Char → Bool} {text : List Char}
    (first : ∀ char ∈ text.head?, edge char = false)
    (last : ∀ char ∈ text.getLast?, edge char = false) : dropEdges edge text = text := by
  have kept (chars : List Char) (first : ∀ char ∈ chars.head?, edge char = false) :
      chars.dropWhile edge = chars := by
    cases chars with
    | nil => rfl
    | cons char later => simp [first char rfl]
  rw [dropEdges, kept text first, kept text.reverse (by simpa using last), List.reverse_reverse]

theorem dropEdges_eq_self {edge : Char → Bool} {text : List Char}
    (keeps : ∀ char ∈ text, edge char = false) : dropEdges edge text = text :=
  dropEdges_eq_self_of_ends (fun char member => keeps char (List.mem_of_mem_head? member))
    fun char member => keeps char (List.mem_of_mem_getLast? member)

theorem dropEdges_surround {edge : Char → Bool} {char : Char} (isEdge : edge char = true)
    (text : List Char) : dropEdges edge (char :: (text ++ [char])) = dropEdges edge text := by
  rw [dropEdges, dropEdges, List.dropWhile_cons_of_pos isEdge, List.dropWhile_append]
  cases text.dropWhile edge with
  | nil => simp [isEdge]
  | cons first later => simp [isEdge]

end Text

theorem unquote_surround (literal : String) : unquote ("'" ++ literal ++ "'") = unquote literal := by
  have chars : ("'" ++ literal ++ "'").toList = '\'' :: (literal.toList ++ ['\'']) := by simp
  rw [unquote, unquote, chars, Text.dropEdges_surround (by decide)]

theorem literalNumber?_surround (literal : String) :
    literalNumber? ("'" ++ literal ++ "'") = literalNumber? literal := by
  rw [literalNumber?, literalNumber?, unquote_surround]

namespace Relation

/-- The relation between whole numbers that a relation stands for. -/
def Relates : Relation → Int → Int → Prop
  | greater, left, right => right < left
  | less, left, right => left < right
  | equal, left, right => left = right
  | greaterOrEqual, left, right => right ≤ left
  | lessOrEqual, left, right => left ≤ right

instance : (relation : Relation) → (left right : Int) → Decidable (relation.Relates left right)
  | greater, left, right => inferInstanceAs (Decidable (right < left))
  | less, left, right => inferInstanceAs (Decidable (left < right))
  | equal, left, right => inferInstanceAs (Decidable (left = right))
  | greaterOrEqual, left, right => inferInstanceAs (Decidable (right ≤ left))
  | lessOrEqual, left, right => inferInstanceAs (Decidable (left ≤ right))

theorem holds_compare (relation : Relation) (left right : Int) :
    relation.holds (some (Ord.compare left right)) = decide (relation.Relates left right) := by
  rw [Bool.eq_iff_iff, decide_eq_true_iff]
  cases relation <;>
    simp [holds, Relates, Ordering.isEq_iff_eq_eq, Int.isLE_compare, Int.isGE_compare,
      Int.compare_eq_lt, Int.compare_eq_gt]

/-- Whether the verdicts of all relations on two things fit together. -/
structure Coherent (noOrder : Prop) (holds : Relation → Bool) : Prop where
  greaterOrEqual : holds greaterOrEqual = true ↔ holds greater = true ∨ holds equal = true
  lessOrEqual : holds lessOrEqual = true ↔ holds less = true ∨ holds equal = true
  ordered : ¬noOrder → ∃! relation, relation ∈ [less, equal, greater] ∧ holds relation = true
  unordered : noOrder → ∀ relation, holds relation = false

theorem existsUnique_holds (order : Ordering) :
    ∃! relation, relation ∈ [less, equal, greater] ∧ holds relation (some order) = true := by
  cases order with
  | lt => exact ⟨less, by decide, fun relation => by cases relation <;> simp [holds]⟩
  | eq => exact ⟨equal, by decide, fun relation => by cases relation <;> simp [holds]⟩
  | gt => exact ⟨greater, by decide, fun relation => by cases relation <;> simp [holds]⟩

theorem coherent_holds (order? : Option Ordering) :
    Coherent (order? = none) fun relation => relation.holds order? := by
  cases order? with
  | none => exact ⟨by decide, by decide, fun ordered => absurd rfl ordered, fun _ _ => by rfl⟩
  | some order =>
      refine ⟨?_, ?_, fun _ => existsUnique_holds order, fun none => by cases none⟩
      · cases order <;> decide
      · cases order <;> decide

end Relation

theorem Number.Binary64.order?_eq_none_iff {number other : Binary64} :
    number.order? other = none ↔ number = .nan ∨ other = .nan := by
  cases number <;> cases other <;> simp [Binary64.order?]

namespace Value

/-- Whether a value and a literal have no order: one of two floating-point numbers is `nan`. -/
def Unordered (literal : String) : Value → Prop
  | .float number => number = .nan ∨ literalNumber? literal = some .nan
  | _ => False

def SameKind : Value → Value → Prop
  | .integer _, .integer _ | .float _, .float _ | .text _, .text _ => True
  | _, _ => False

theorem SameKind.refuses_iff {actual other : Value} (sameKind : actual.SameKind other) (literal : String) :
    actual.Refuses literal ↔ other.Refuses literal := by
  cases actual <;> cases other <;> first | exact Iff.rfl | cases sameKind

theorem orderToLiteral_eq_none_iff {actual : Value} {field literal : String}
    {order? : Option Ordering} (compared : actual.orderToLiteral field literal = .ok order?) :
    order? = none ↔ actual.Unordered literal := by
  cases actual with
  | integer whole =>
      obtain ⟨number, -, ordered⟩ := Collection.bind_eq_ok_iff.mp compared
      refine iff_of_false ?_ id
      rintro rfl
      split at ordered <;> cases ordered
  | float number =>
      obtain ⟨other, read, ordered⟩ := Collection.bind_eq_ok_iff.mp compared
      obtain rfl := Except.ok.inj ordered
      rw [readNumber_eq_ok_iff] at read
      rw [Binary64.order?_eq_none_iff, Unordered, read, Option.some_inj]
  | text written =>
      obtain rfl := Except.ok.inj compared
      exact iff_of_false (by simp) id

end Value

namespace Relation

theorem exists_compare_eq_error_iff {relation : Relation} {actual : Value} {field literal : String} :
    (∃ fault, relation.compare actual field literal = .error fault) ↔ actual.Refuses literal := by
  simp [compare_eq_error_iff]

/-- A value and a literal cannot be compared at all, or every relation has a verdict on them, and
the verdicts fit together. -/
theorem compare_coherent (actual : Value) (field literal : String) :
    ((∀ relation : Relation, relation.compare actual field literal =
        .error (.notNumeric field (unquote literal))) ∨
      ∃ holds : Relation → Bool,
        (∀ relation : Relation, relation.compare actual field literal = .ok (holds relation)) ∧
        Coherent (actual.Unordered literal) holds) ∧
    ∀ (other : Value) (otherField : String) (relation otherRelation : Relation),
      actual.SameKind other →
      ((∃ fault, relation.compare actual field literal = .error fault) ↔
        ∃ fault, otherRelation.compare other otherField literal = .error fault) := by
  constructor
  · by_cases refuses : actual.Refuses literal
    · left
      intro relation
      exact compare_eq_error_iff.mpr ⟨refuses, rfl⟩
    · right
      have compared : ∃ order?, actual.orderToLiteral field literal = .ok order? := by
        rw [Collection.exists_ok_iff]
        intro fault failed
        exact refuses (Value.orderToLiteral_eq_error_iff.mp failed).1
      obtain ⟨order?, compared⟩ := compared
      refine ⟨fun relation => relation.holds order?, ?_, ?_⟩
      · intro relation
        rw [Relation.compare, compared]
        rfl
      · rw [← Value.orderToLiteral_eq_none_iff compared]
        exact coherent_holds order?
  · intro other otherField relation otherRelation sameKind
    rw [exists_compare_eq_error_iff, exists_compare_eq_error_iff, sameKind.refuses_iff]

theorem compare_coherent_extremes :
    ((∃ fault, less.compare (.integer 1) "a" "9e999" = .error fault) ∧
      ∃ fault, equal.compare (.integer 2) "b" "9e999" = .error fault) ∧
    (∃ holds : Relation → Bool,
      (∀ relation : Relation, relation.compare (.integer 1) "a" "1e19" = .ok (holds relation)) ∧
      holds less = true ∧ holds lessOrEqual = true ∧
      ∃! relation, relation ∈ [less, equal, greater] ∧ holds relation = true) ∧
    ∀ relation : Relation, relation.compare (.float (.zero true)) "a" "'NaN'" = .ok false := by
  refine ⟨?_, ?_, ?_⟩
  · have failed : ∃ fault, less.compare (.integer 1) "a" "9e999" = .error fault := ⟨_, rfl⟩
    have sameKind : (Value.integer 1).SameKind (.integer 2) := trivial
    exact ⟨failed, ((compare_coherent (.integer 1) "a" "9e999").2 _ "b" less equal sameKind).mp failed⟩
  · have lessHolds : (less.compare (.integer 1) "a" "1e19").toOption = some true := by decide +kernel
    rcases (compare_coherent (.integer 1) "a" "1e19").1 with fails | ⟨holds, compared, coherent⟩
    · rw [fails less] at lessHolds
      cases lessHolds
    · rw [compared less] at lessHolds
      have lessHolds : holds less = true := Option.some.inj lessHolds
      exact ⟨holds, compared, lessHolds, coherent.lessOrEqual.mpr (.inl lessHolds),
        coherent.ordered id⟩
  · have noNumber : literalNumber? "'NaN'" = some .nan := by decide +kernel
    have compares : (less.compare (.float (.zero true)) "a" "'NaN'").toOption = some false := by
      decide +kernel
    rcases (compare_coherent (.float (.zero true)) "a" "'NaN'").1 with
      fails | ⟨holds, compared, coherent⟩
    · rw [fails less] at compares
      cases compares
    · intro relation
      rw [compared, coherent.unordered (.inr noNumber)]

end Relation

end Rulebook
