import Rulebook.Proofs.Record
import Rulebook.Proofs.Text.Bytes

/-!
The text of a record as the one form of what the record holds. However a record is made, it holds the
last value given to each field, and its text lists just these, in the order of the names of the fields.
So finite records have the same text if and only if the same values were given last.
-/

namespace Rulebook

theorem Value.lexemes_toJson (value : Value) (rest : List Json.Lexeme) :
    value.toJson.lexemes rest = value.toJson.lexemes [] ++ rest := by
  cases value with
  | integer number => rfl
  | float number => cases number <;> rfl
  | text written => rfl

namespace Record

/-- A step of making a record: a value is given to a field, or the record is made anew of values. -/
inductive Step where
  | insert (field : String) (value : Value)
  | collect (values : List (String × Value))

def make (record : Record) : Step → Record
  | .insert field value => record.insert field value
  | .collect values => ofList values

def made (steps : List Step) : Record :=
  steps.foldl make empty

def givenNext (given : List (String × Value)) : Step → List (String × Value)
  | .insert field value => given ++ [(field, value)]
  | .collect values => values

/-- The value that was given last to a field, since the record was last made anew. -/
def last? (steps : List Step) (field : String) : Option Value :=
  (steps.foldl givenNext []).reverse.lookup field

theorem ofList_givenNext (given : List (String × Value)) (step : Step) :
    ofList (givenNext given step) = (ofList given).make step := by
  cases step with
  | insert field value =>
      rw [givenNext, ofList, List.foldl_append]
      rfl
  | collect values => rfl

theorem made_eq_ofList (steps : List Step) : made steps = ofList (steps.foldl givenNext []) := by
  have run : steps.foldl make (ofList []) = ofList (steps.foldl givenNext []) :=
    List.foldl_hom ofList fun given step => (ofList_givenNext given step).symm
  exact run

theorem get?_made (steps : List Step) (field : String) : (made steps).get? field = last? steps field := by
  rw [made_eq_ofList, get?_ofList, last?]

theorem parse?_render {readFloat : Json.FloatReader} {record : Record} (finite : record.IsFinite)
    (rereads : record.Rereads readFloat) : parse? record.render readFloat = some record := by
  rw [parse?, render, Json.parse?_render record.readable_toJson, Option.bind_some,
    ofJson?_toJson finite rereads]

theorem render_eq_iff {record other : Record} (finite : record.IsFinite) (otherFinite : other.IsFinite) :
    record.render = other.render ↔ ∀ field, record.get? field = other.get? field := by
  constructor
  · -- Whatever a reader makes of it, a text holds all that the reader of nearest numbers finds in it.
    intro same
    have read := parse?_render finite record.rereads_nearest
    rw [same, parse?_render otherFinite other.rereads_nearest] at read
    obtain rfl := Option.some.inj read
    exact fun field => rfl
  · intro same
    rw [ext_get? same]

/-! The text of a record, field by field. -/

def memberText (binding : String × Value) : String :=
  (Json.ofText binding.1).render ++ ":" ++ binding.2.render

def jsonMember (binding : String × Value) : Json.Quoted × Json :=
  (.ofText binding.1, binding.2.toJson)

theorem flatMap_chars_memberLexeme (binding : String × Value) (rest : List Json.Lexeme) :
    (Json.memberLexeme (jsonMember binding) rest).flatMap Json.Lexeme.chars =
      (memberText binding).toList ++ rest.flatMap Json.Lexeme.chars := by
  rw [jsonMember, Json.memberLexeme, binding.2.lexemes_toJson]
  simp [memberText, Value.render, Json.render, Json.ofText, Json.lexemes, Json.Lexeme.chars]

theorem flatMap_chars_memberLexemes (first : String × Value) (later : List (String × Value))
    (rest : List Json.Lexeme) :
    (Json.memberLexemes ((first :: later).map jsonMember) rest).flatMap Json.Lexeme.chars =
      (",".intercalate ((first :: later).map memberText)).toList ++
        rest.flatMap Json.Lexeme.chars := by
  induction later generalizing first with
  | nil =>
      rw [List.map_singleton, List.map_singleton, String.intercalate_singleton]
      exact flatMap_chars_memberLexeme first rest
  | cons second later ih =>
      have comma : Json.memberLexemes ((first :: second :: later).map jsonMember) rest =
          Json.memberLexeme (jsonMember first)
            (.comma :: Json.memberLexemes ((second :: later).map jsonMember) rest) := rfl
      rw [comma, flatMap_chars_memberLexeme, List.flatMap_cons, ih second]
      simp [Json.Lexeme.chars, String.intercalate_cons_cons]

def objectText (members : List String) : String :=
  String.singleton '{' ++ ",".intercalate members ++ String.singleton '}'

theorem render_eq (record : Record) :
    record.render = objectText (record.toList.map memberText) := by
  have members : record.toJson = .object (record.toList.map jsonMember) := rfl
  rw [render, Json.render, members, Json.lexemes, ← String.toList_inj, String.toList_ofList]
  cases record.toList with
  | nil => rfl
  | cons first later =>
      rw [List.flatMap_cons, flatMap_chars_memberLexemes]
      simp [objectText, Json.Lexeme.chars]

theorem pairwise_bytes_toList (record : Record) :
    record.toList.Pairwise fun binding later => Text.bytes binding.1 < Text.bytes later.1 := by
  have ordered : record.toList.Pairwise fun binding later => compare binding.1 later.1 = .lt :=
    Std.ExtTreeMap.ordered_keys_toList
  refine ordered.imp ?_
  intro binding later below
  exact Text.bytes_lt_bytes (compareOfLessAndEq_eq_lt.mp below)

/-- The text of a record is the one form of the values given last to its fields, which are read back
from it. -/
theorem render_made_canonical {steps : List Step} (finite : (made steps).IsFinite) :
    (∃ bindings : List (String × Value),
      (∀ field value, (field, value) ∈ bindings ↔ last? steps field = some value) ∧
      (bindings.Pairwise fun binding later => Text.bytes binding.1 < Text.bytes later.1) ∧
      (made steps).render = objectText (bindings.map memberText)) ∧
    (∀ readFloat, (made steps).Rereads readFloat →
      ∃ record, parse? (made steps).render readFloat = some record ∧
        ∀ field, record.get? field = last? steps field) ∧
    ∀ others, (made others).IsFinite →
      ((made steps).render = (made others).render ↔
        ∀ field, last? steps field = last? others field) := by
  refine ⟨⟨(made steps).toList, ?_, pairwise_bytes_toList _, render_eq _⟩, ?_, ?_⟩
  · intro field value
    rw [mem_toList_iff, get?_made]
  · intro readFloat rereads
    exact ⟨made steps, parse?_render finite rereads, get?_made steps⟩
  · intro others otherFinite
    simp only [render_eq_iff finite otherFinite, get?_made]

theorem render_made_canonical_replaced :
    let steps : List Step := [.insert "a" (.float .nan),
      .collect [("é", .text "1"), ("z", .float .nan)], .insert "z" (.float (.zero true))]
    let others : List Step := [.collect [("z", .float (.zero true)), ("é", .text "1")]]
    (made steps).IsFinite ∧ (made others).IsFinite ∧ (made steps).render = (made others).render ∧
      (made steps).Rereads Json.Numeral.toBinary64? ∧
      ∃ record, parse? (made steps).render Json.Numeral.toBinary64? = some record ∧
        record.get? "z" = some (.float (.zero true)) ∧ record.get? "é" = some (.text "1") := by
  intro steps others
  have sameLast : ∀ field, last? steps field = last? others field := by
    intro field
    simp only [last?, steps, others, List.foldl_cons, List.foldl_nil, givenNext, List.cons_append,
      List.nil_append, List.reverse_cons, List.reverse_nil, List.lookup_cons]
    by_cases isZ : field = "z"
    · subst isZ
      rfl
    · simp only [beq_false_of_ne isZ]
  have same : made steps = made others := by
    apply ext_get?
    intro field
    rw [get?_made, get?_made, sameLast]
  have otherFinite : (made others).IsFinite := by
    have zero : (Value.float (.zero true)).IsFinite := rfl
    have one : (Value.text "1").IsFinite := trivial
    apply forall_get?_ofList
    simp [zero, one]
  have finite : (made steps).IsFinite := same ▸ otherFinite
  have rereads : (made steps).Rereads Json.Numeral.toBinary64? := by
    have zero : (Value.float (.zero true)).Rereads Json.Numeral.toBinary64? :=
      Json.rereads_of_isShort (by decide +kernel)
    have one : (Value.text "1").Rereads Json.Numeral.toBinary64? := trivial
    rw [same]
    apply forall_get?_ofList
    simp [zero, one]
  obtain ⟨-, reading, canonical⟩ := render_made_canonical finite
  obtain ⟨record, read, holds⟩ := reading _ rereads
  exact ⟨finite, otherFinite, (canonical others otherFinite).mpr sameLast, rereads, record, read,
    holds "z", holds "é"⟩

end Record

end Rulebook
