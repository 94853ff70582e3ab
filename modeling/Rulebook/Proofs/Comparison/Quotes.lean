import Rulebook.Proofs.Comparison

/-!
Quotes around literals. A literal counts for what is left of it without them, whatever it is compared
with, so quotes that come off again change neither a verdict nor a failure. What is left has no double
quote at its ends, and no text that has one there is equal to a literal.
-/

namespace Rulebook

namespace Text

/-- Whether a character stands at one of the ends of a text. -/
def HasEdge (char : Char) (text : List Char) : Prop :=
  text.head? = some char ∨ text.getLast? = some char

instance (char : Char) (text : List Char) : Decidable (HasEdge char text) :=
  inferInstanceAs (Decidable (_ ∨ _))

theorem head?_dropWhile_ne {edge : Char → Bool} {char : Char} (isEdge : edge char = true)
    (text : List Char) : (text.dropWhile edge).head? ≠ some char := by
  intro first
  have kept := List.head?_dropWhile_not edge text
  simp [first, isEdge] at kept

theorem getLast?_dropWhile_ne {edge : Char → Bool} {char : Char} {text : List Char}
    (apart : text.getLast? ≠ some char) : (text.dropWhile edge).getLast? ≠ some char := by
  intro last
  obtain ⟨dropped, whole⟩ := List.dropWhile_suffix (l := text) edge
  apply apart
  rw [← whole, List.getLast?_append, last]
  rfl

theorem not_hasEdge_dropEdges {edge : Char → Bool} {char : Char} (isEdge : edge char = true)
    (text : List Char) : ¬HasEdge char (dropEdges edge text) := by
  have front := head?_dropWhile_ne isEdge text
  rintro (first | last)
  · rw [dropEdges, List.head?_reverse] at first
    refine getLast?_dropWhile_ne ?_ first
    rwa [List.getLast?_reverse]
  · rw [dropEdges, List.getLast?_reverse] at last
    exact head?_dropWhile_ne isEdge _ last

theorem dropEdges_eq_self_of_not_hasEdge {char : Char} {text : List Char}
    (apart : ¬HasEdge char text) : dropEdges (· == char) text = text := by
  rw [HasEdge, not_or] at apart
  apply dropEdges_eq_self_of_ends
  · rintro first isFirst
    exact beq_false_of_ne fun same => apart.1 (same ▸ isFirst)
  · rintro last isLast
    exact beq_false_of_ne fun same => apart.2 (same ▸ isLast)

end Text

theorem toList_unquote (literal : String) : (unquote literal).toList =
    Text.dropEdges (· == '"') (Text.dropEdges (· == '\'') literal.toList) := by
  rw [unquote, String.toList_ofList]

theorem unquote_surround_double {literal : String} (bare : ¬Text.HasEdge '\'' literal.toList) :
    unquote ("\"" ++ literal ++ "\"") = unquote literal := by
  have chars : ("\"" ++ literal ++ "\"").toList = '"' :: (literal.toList ++ ['"']) := by simp
  -- With double quotes at both ends there are no single quotes to come off first.
  have quoted : ¬Text.HasEdge '\'' ('"' :: (literal.toList ++ ['"'])) := by
    rw [Text.HasEdge, List.head?_cons, ← List.cons_append, List.getLast?_concat]
    decide
  rw [unquote, unquote, chars, Text.dropEdges_eq_self_of_not_hasEdge quoted,
    Text.dropEdges_eq_self_of_not_hasEdge bare, Text.dropEdges_surround (by decide)]

-- The single quotes come off first, so those inside the double quotes stay where they are.
example : unquote "'\"'x'\"'" = "'x'" ∧ unquote (unquote "'\"'x'\"'") = "x" := by
  decide

theorem not_hasEdge_unquote (literal : String) : ¬Text.HasEdge '"' (unquote literal).toList := by
  rw [toList_unquote]
  exact Text.not_hasEdge_dropEdges (by decide) _

theorem readNumber_congr {literal other : String} (same : unquote literal = unquote other)
    (field : String) : readNumber field literal = readNumber field other := by
  rw [readNumber, readNumber, literalNumber?, literalNumber?, same]

theorem Value.orderToLiteral_congr {literal other : String} (same : unquote literal = unquote other)
    (actual : Value) (field : String) :
    actual.orderToLiteral field literal = actual.orderToLiteral field other := by
  unfold orderToLiteral
  rw [readNumber_congr same, same]

namespace Relation

theorem compare_congr {literal other : String} (same : unquote literal = unquote other)
    (relation : Relation) (actual : Value) (field : String) :
    relation.compare actual field literal = relation.compare actual field other := by
  rw [compare, compare, Value.orderToLiteral_congr same]

theorem compare_equal_text (written field literal : String) :
    equal.compare (.text written) field literal = .ok (decide (written = unquote literal)) := by
  have same : (Ord.compare written (unquote literal)).isEq = decide (written = unquote literal) := by
    rw [Bool.eq_iff_iff, decide_eq_true_iff, Ordering.isEq_iff_eq_eq, Std.LawfulEqOrd.compare_eq_iff_eq]
  rw [← same]
  rfl

/-- Single quotes around a literal never change how it compares, nor do double quotes around one
without single quotes at its ends. -/
theorem compare_quoted (relation : Relation) (actual : Value) (field literal : String) :
    relation.compare actual field ("'" ++ literal ++ "'") = relation.compare actual field literal ∧
    (¬Text.HasEdge '\'' literal.toList →
      relation.compare actual field ("\"" ++ literal ++ "\"") =
        relation.compare actual field literal) ∧
    ¬Text.HasEdge '"' (unquote literal).toList ∧
    ∀ written, Text.HasEdge '"' written.toList →
      equal.compare (.text written) field literal = .ok false := by
  refine ⟨compare_congr (unquote_surround literal) relation actual field, ?_,
    not_hasEdge_unquote literal, ?_⟩
  · intro bare
    exact compare_congr (unquote_surround_double bare) relation actual field
  · intro written edged
    have differs : written ≠ unquote literal := by
      rintro rfl
      exact not_hasEdge_unquote literal edged
    rw [compare_equal_text, decide_eq_false differs]

theorem compare_quoted_inner :
    let literal := "\"'7'\""
    ¬Text.HasEdge '\'' literal.toList ∧
      less.compare (.integer 5) "n" ("\"" ++ literal ++ "\"") = .error (.notNumeric "n" "'7'") ∧
      Text.HasEdge '"' literal.toList ∧ equal.compare (.text literal) "n" literal = .ok false := by
  intro literal
  obtain ⟨-, double, -, unequal⟩ := compare_quoted less (.integer 5) "n" literal
  have bare : ¬Text.HasEdge '\'' literal.toList := by decide
  have edged : Text.HasEdge '"' literal.toList := by decide
  have inner : unquote literal = "'7'" := by decide
  have noNumber : literalNumber? literal = none := by decide +kernel
  refine ⟨bare, (double bare).trans ?_, edged, unequal literal edged⟩
  rw [← inner]
  exact compare_eq_error_iff.mpr ⟨.inl noNumber, rfl⟩

end Relation

end Rulebook
