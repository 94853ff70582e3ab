import Rulebook.Host.Reading
import Rulebook.Proofs.Document.Conversion

/-!
Documents as objects of the host program. The object of a document is read back as that document if
no chain of nodes in it is too long, so the host's reader and `Document.toRule` accept the same
documents; and a key without a value may as well be left out.
-/

namespace Rulebook.Host

namespace Object

@[simp] theorem sameKey_text (name other : String) :
    (text name).sameKey (text other) = (name == other) := by
  rw [sameKey]

@[simp] theorem item?_nil (name : String) : item? [] name = .none := rfl

@[simp] theorem item?_cons (key : String) (value : Object) (items : List (Object × Object))
    (name : String) :
    item? ((text key, value) :: items) name =
      if key = name then some value else item? items name := by
  by_cases same : key = name
  · simp [item?, same]
  · simp [item?, same]

theorem item?_append (items later : List (Object × Object)) (name : String) :
    item? (items ++ later) name = (item? items name).or (item? later name) := by
  rw [item?, List.find?_append, Option.map_or]
  rfl

def itemsBelow (name : String) (child : Option Document) : List (Object × Object) :=
  (child.map fun child => (text name, ofDocument child)).toList

theorem ofDocument_node (kind : NodeKind) (value : Option String) (left right : Option Document) :
    ofDocument ⟨kind, value, left, right⟩ =
      .dict ((text "type", text kind.text) :: (text "value", value.elim none text) ::
        (itemsBelow "left" left ++ itemsBelow "right" right)) := by
  cases left <;> cases right <;> rfl

def given (items : List (Object × Object)) (name : String) : Option Object :=
  (item? items name).bind given?

theorem given_ofDocument (kind : NodeKind) (value : Option String) (left right : Option Document) :
    ∃ items, ofDocument ⟨kind, value, left, right⟩ = .dict items ∧
      item? items "type" = some (text kind.text) ∧ given items "value" = value.map text ∧
      given items "left" = left.map ofDocument ∧ given items "right" = right.map ofDocument := by
  refine ⟨_, ofDocument_node kind value left right, ?_⟩
  have belowGiven : ∀ child, given? (ofDocument child) = some (ofDocument child) := by
    rintro ⟨kind, value, left, right⟩
    rw [ofDocument_node]
    rfl
  refine ⟨by simp, ?_, ?_, ?_⟩
  · cases value <;> simp [given, given?]
  · cases left <;> cases right <;> simp [given, itemsBelow, belowGiven]
  · cases left <;> cases right <;> simp [given, itemsBelow, belowGiven]

end Object

open Object (item? given)

def readGiven {α : Type} (read : Object → Except Failure α) :
    Option Object → Except Failure (Option α)
  | none => .ok none
  | some object => some <$> read object

theorem readDocumentWithin_dict (levels : Nat) (items : List (Object × Object)) :
    readDocumentWithin (levels + 1) (.dict items) = do
      let some kind := item? items "type" | throw (.wrongValue "AST node without type")
      let kind ← kind.readText
      let some kind := NodeKind.ofText? kind | throw (.wrongValue ("Unknown node type: " ++ kind))
      let value ← readGiven Object.readText (given items "value")
      let left ← readGiven (readDocumentWithin levels) (given items "left")
      let right ← readGiven (readDocumentWithin levels) (given items "right")
      return ⟨kind, value, left, right⟩ := by
  rw [readDocumentWithin]
  simp only [given]
  cases (item? items "value").bind Object.given? <;>
    cases (item? items "left").bind Object.given? <;>
      cases (item? items "right").bind Object.given? <;> rfl

theorem readGiven_ofDocument {levels : Nat} {child : Option Document}
    (read : ∀ document ∈ child, readDocumentWithin levels (.ofDocument document) =
      if document.levels ≤ levels then .ok document
      else .error (.ofFault (.invalidDocument .tooDeep))) :
    readGiven (readDocumentWithin levels) (child.map Object.ofDocument) =
      if Document.levelsBelow child ≤ levels then .ok child
      else .error (.ofFault (.invalidDocument .tooDeep)) := by
  cases child with
  | none => simp [readGiven, Document.levelsBelow]
  | some document =>
      rw [Option.map_some, readGiven, read document rfl, Document.levelsBelow, Option.elim]
      split
      · rfl
      · rfl

theorem readDocumentWithin_ofDocument (document : Document) (levels : Nat) :
    readDocumentWithin levels (.ofDocument document) =
      if document.levels ≤ levels then .ok document
      else .error (.ofFault (.invalidDocument .tooDeep)) := by
  induction document using Document.induction generalizing levels with
  | node kind value left right leftRead rightRead =>
      cases levels with
      | zero => simp [readDocumentWithin, Document.levels_node]
      | succ levels =>
          obtain ⟨items, whole, kindGiven, valueGiven, leftGiven, rightGiven⟩ :=
            Object.given_ofDocument kind value left right
          have leftBelow := readGiven_ofDocument fun child member => leftRead child member levels
          have rightBelow := readGiven_ofDocument fun child member => rightRead child member levels
          have kindRead : NodeKind.ofText? kind.text = some kind :=
            NodeKind.ofText?_eq_some_iff.mpr rfl
          have valueRead : readGiven Object.readText (value.map .text) = .ok value := by
            cases value <;> rfl
          rw [whole, readDocumentWithin_dict, kindGiven, valueGiven, leftGiven, rightGiven,
            leftBelow, rightBelow, valueRead, Document.levels_node]
          simp only [Object.readText, kindRead, Collection.ok_bind]
          by_cases leftFits : Document.levelsBelow left ≤ levels
          · by_cases rightFits : Document.levelsBelow right ≤ levels
            · have fits : max (Document.levelsBelow left) (Document.levelsBelow right) + 1 ≤
                  levels + 1 := by omega
              rw [if_pos leftFits, if_pos rightFits, if_pos fits]
              rfl
            · have tooDeep : ¬max (Document.levelsBelow left) (Document.levelsBelow right) + 1 ≤
                  levels + 1 := by omega
              rw [if_pos leftFits, if_neg rightFits, if_neg tooDeep]
              rfl
          · have tooDeep : ¬max (Document.levelsBelow left) (Document.levelsBelow right) + 1 ≤
                levels + 1 := by omega
            rw [if_neg leftFits, if_neg tooDeep]
            rfl

/-- Objects that differ in keys of nodes alone, which one leaves out and the other gives as `none`.
-/
inductive Alike : Object → Object → Prop
  | unset {items later : List (Object × Object)} {name : String}
      (optional : name = "value" ∨ name = "left" ∨ name = "right")
      (absent : item? (items ++ later) name = none) :
      Alike (.dict (items ++ (.text name, .none) :: later)) (.dict (items ++ later))
  | inside {items later : List (Object × Object)} {name : String} {child other : Object}
      (isBelow : name = "left" ∨ name = "right") (alike : Alike child other) :
      Alike (.dict (items ++ (.text name, child) :: later))
        (.dict (items ++ (.text name, other) :: later))
  | refl (object : Object) : Alike object object
  | symm {object other : Object} : Alike object other → Alike other object
  | trans {object middle other : Object} : Alike object middle → Alike middle other →
      Alike object other

theorem item?_insert {items later : List (Object × Object)} {name asked : String} {value : Object}
    (other : name ≠ asked) :
    item? (items ++ (.text name, value) :: later) asked = item? (items ++ later) asked := by
  rw [Object.item?_append, Object.item?_cons, if_neg other, Object.item?_append]

theorem given_insert_none {items later : List (Object × Object)} {name : String}
    (absent : item? (items ++ later) name = none) (asked : String) :
    given (items ++ (.text name, .none) :: later) asked = given (items ++ later) asked := by
  by_cases same : name = asked
  · subst same
    rw [given, given, absent]
    rw [Object.item?_append, Option.or_eq_none_iff] at absent
    rw [Object.item?_append, absent.1, Object.item?_cons, if_pos rfl]
    rfl
  · rw [given, item?_insert same, given]

theorem readDocumentWithin_congr {levels : Nat} {items others : List (Object × Object)}
    (sameKind : item? items "type" = item? others "type")
    (sameValue : given items "value" = given others "value")
    (sameLeft : readGiven (readDocumentWithin levels) (given items "left") =
      readGiven (readDocumentWithin levels) (given others "left"))
    (sameRight : readGiven (readDocumentWithin levels) (given items "right") =
      readGiven (readDocumentWithin levels) (given others "right")) :
    readDocumentWithin (levels + 1) (.dict items) =
      readDocumentWithin (levels + 1) (.dict others) := by
  rw [readDocumentWithin_dict, readDocumentWithin_dict, sameKind, sameValue, sameLeft, sameRight]

theorem readGiven_insert {levels : Nat} {items later : List (Object × Object)} {name : String}
    {child other : Object}
    (sameChild : readGiven (readDocumentWithin levels) child.given? =
      readGiven (readDocumentWithin levels) other.given?) (asked : String) :
    readGiven (readDocumentWithin levels) (given (items ++ (.text name, child) :: later) asked) =
      readGiven (readDocumentWithin levels)
        (given (items ++ (.text name, other) :: later) asked) := by
  by_cases same : name = asked
  · subst same
    rw [given, given, Object.item?_append, Object.item?_append, Object.item?_cons,
      Object.item?_cons, if_pos rfl, if_pos rfl]
    cases item? items name with
    | some found => rfl
    | none => exact sameChild
  · rw [given, given, item?_insert same, item?_insert same]

theorem Alike.read {object other : Object} (alike : Alike object other) (levels : Nat) :
    readDocumentWithin levels object = readDocumentWithin levels other ∧
      readGiven (readDocumentWithin levels) object.given? =
        readGiven (readDocumentWithin levels) other.given? := by
  induction alike generalizing levels with
  | @unset items later name optional absent =>
      have notKind : name ≠ "type" := by
        rintro rfl
        simp at optional
      have same : readDocumentWithin levels (.dict (items ++ (.text name, .none) :: later)) =
          readDocumentWithin levels (.dict (items ++ later)) := by
        cases levels with
        | zero => rfl
        | succ levels =>
            apply readDocumentWithin_congr (item?_insert notKind)
            · rw [given_insert_none absent]
            · rw [given_insert_none absent]
            · rw [given_insert_none absent]
      exact ⟨same, congrArg (Functor.map some) same⟩
  | @inside items later name child other isBelow alike ih =>
      have notKind : name ≠ "type" := by
        rintro rfl
        simp at isBelow
      have notValue : name ≠ "value" := by
        rintro rfl
        simp at isBelow
      have same : readDocumentWithin levels (.dict (items ++ (.text name, child) :: later)) =
          readDocumentWithin levels (.dict (items ++ (.text name, other) :: later)) := by
        cases levels with
        | zero => rfl
        | succ levels =>
            apply readDocumentWithin_congr
            · rw [item?_insert notKind, item?_insert notKind]
            · rw [given, given, item?_insert notValue, item?_insert notValue]
            · exact readGiven_insert (ih levels).2 "left"
            · exact readGiven_insert (ih levels).2 "right"
      exact ⟨same, congrArg (Functor.map some) same⟩
  | refl object => exact ⟨rfl, rfl⟩
  | symm _ ih => exact ⟨(ih levels).1.symm, (ih levels).2.symm⟩
  | trans _ _ first second =>
      exact ⟨(first levels).1.trans (second levels).1, (first levels).2.trans (second levels).2⟩

theorem readDocument_ofDocument (document : Document) :
    readDocument (.ofDocument document) =
      if document.levels ≤ maxNesting + 1 then .ok document
      else .error (.ofFault (.invalidDocument .tooDeep)) :=
  readDocumentWithin_ofDocument document (maxNesting + 1)

theorem Failure.lift_eq_ok_iff {α : Type} {result : Except Fault α} {value : α} :
    Failure.lift result = .ok value ↔ result = .ok value := by
  cases result with
  | ok found =>
      constructor
      · intro lifted
        exact congrArg Except.ok (Except.ok.inj lifted)
      · intro same
        exact congrArg Except.ok (Except.ok.inj same)
  | error fault =>
      constructor
      · intro lifted
        cases lifted
      · intro same
        cases same

theorem readRule_of_shallow {document : Document} (shallow : document.Shallow) :
    readRule (.ofDocument document) = Failure.lift document.toRule := by
  rw [readRule, readDocument_ofDocument, if_pos (Document.shallow_iff_levels_le.mp shallow),
    Collection.ok_bind]

theorem readRule_of_deep {document : Document} (deep : ¬document.Shallow) :
    readRule (.ofDocument document) = .error (.ofFault (.invalidDocument .tooDeep)) := by
  rw [readRule, readDocument_ofDocument, if_neg (mt Document.shallow_iff_levels_le.mpr deep),
    Collection.error_bind]

theorem shallow_of_toRule {document : Document} {rule : Rule} (made : document.toRule = .ok rule) :
    document.Shallow :=
  Document.shallow_iff_levels_le.mpr (Document.ofRule_of_toRuleWithin made).2.2

/-- The object of a document is read as a rule exactly if the document is one, and as the same rule.
-/
theorem readRule_ofDocument :
    (∀ document : Document,
      (∀ rule, readRule (.ofDocument document) = .ok rule ↔ document.toRule = .ok rule) ∧
      (document.Shallow → readDocument (.ofDocument document) = .ok document ∧
        readRule (.ofDocument document) = Failure.lift document.toRule) ∧
      (¬document.Shallow → (∃ fault, document.toRule = .error fault) ∧
        readRule (.ofDocument document) =
          .error (.wrongValue (Fault.invalidDocument .tooDeep).message))) ∧
    ∀ object other, Alike object other → readRule object = readRule other := by
  constructor
  · intro document
    refine ⟨?_, ?_, ?_⟩
    · intro rule
      by_cases shallow : document.Shallow
      · rw [readRule_of_shallow shallow, Failure.lift_eq_ok_iff]
      · rw [readRule_of_deep shallow]
        exact iff_of_false nofun fun made => shallow (shallow_of_toRule made)
    · intro shallow
      refine ⟨?_, readRule_of_shallow shallow⟩
      rw [readDocument_ofDocument, if_pos (Document.shallow_iff_levels_le.mp shallow)]
    · intro deep
      refine ⟨?_, readRule_of_deep deep⟩
      cases made : document.toRule with
      | ok rule => exact absurd (shallow_of_toRule made) deep
      | error fault => exact ⟨fault, rfl⟩
  · intro object other alike
    rw [readRule, readRule, readDocument, readDocument, (alike.read _).1]

theorem readRule_ofDocument_malformed :
    let condition : Document := ⟨.condition, some ">", some (.term "a"), none⟩
    let chain : Document := (List.replicate 257 "a").foldl
      (fun below text => ⟨.term, some text, some below, none⟩) (.term "a")
    (condition.Shallow ∧ ¬chain.Shallow) ∧
      readRule (.ofDocument condition) =
        .error (.ofFault (.invalidDocument (.noTerm .right))) ∧
      chain.toRule = .error (.invalidDocument .termWithChildren) ∧
      readRule (.ofDocument chain) = .error (.ofFault (.invalidDocument .tooDeep)) ∧
      ∀ items, item? items "left" = none → readRule (.dict ((.text "left", .none) :: items)) =
        readRule (.dict items) := by
  intro condition chain
  have shallow : condition.Shallow := Document.shallow_iff_levels_le.mpr (by decide)
  have deep : ¬chain.Shallow := mt Document.shallow_iff_levels_le.mp (by decide +kernel)
  have refused := ((readRule_ofDocument.1 condition).2.1 shallow).2
  have tooDeep := ((readRule_ofDocument.1 chain).2.2 deep).2
  refine ⟨⟨shallow, deep⟩, refused, rfl, tooDeep, ?_⟩
  intro items absent
  have unset : Alike (.dict ([] ++ (.text "left", .none) :: items)) (.dict ([] ++ items)) :=
    .unset (.inr (.inl rfl)) absent
  exact readRule_ofDocument.2 _ _ unset

end Rulebook.Host
