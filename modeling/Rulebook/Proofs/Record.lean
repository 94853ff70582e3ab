import Rulebook.Proofs.Json.Numeral
import Rulebook.Proofs.Json.Parser
import Rulebook.Record

/-!
Records as JSON: a record of finite numbers is read back from its written form if each of its
floating-point numbers is. A number that is not finite is left out in writing, and `null` is no value
of a field, so a record with one is not read back.
-/

namespace Rulebook

open Number

namespace Value

def IsFinite : Value → Prop
  | .float number => number.isFinite = true
  | _ => True

def Rereads (readFloat : Json.FloatReader) : Value → Prop
  | .float number => Json.Rereads readFloat number
  | _ => True

theorem integer?_toInt (number : Int64) : integer? number.toInt = some number := by
  rw [integer?, if_pos ⟨number.minValue_le_toInt, number.toInt_le⟩, Int64.ofInt_toInt]

theorem readable_toJson (value : Value) : value.toJson.Readable := by
  cases value with
  | integer number => exact .number (Json.Numeral.read?_chars _)
  | float number =>
      cases number with
      | nan => exact .null
      | infinite _ => exact .null
      | finite _ _ _ => exact .number (Json.Numeral.read?_chars _)
  | text written => exact Json.readable_ofText written

theorem ofJson?_toJson {readFloat : Json.FloatReader} {value : Value} (finite : value.IsFinite)
    (rereads : value.Rereads readFloat) : ofJson? readFloat value.toJson = some value := by
  cases value with
  | integer number =>
      simp only [toJson, ofJson?, ofNumeral?, Json.Numeral.whole?_ofInt, Option.bind_some,
        integer?_toInt]
  | float number =>
      cases number with
      | nan => cases finite
      | infinite _ => cases finite
      | finite negative units representable =>
          have notWhole := Json.Numeral.whole?_ofDecimal negative (Binary64.shortest units)
          rw [Rereads, Json.Rereads] at rereads
          rw [toJson]
          generalize Json.Numeral.ofDecimal negative (Binary64.shortest units) = numeral at *
          rw [ofJson?, ofNumeral?, notWhole, rereads]
          rfl
  | text written =>
      simp only [toJson, ofJson?, Json.ofText, Json.Quoted.text?_ofText, Option.map_some]

theorem ofJson?_toJson_eq_none (readFloat : Json.FloatReader) {value : Value}
    (infinite : ¬value.IsFinite) : ofJson? readFloat value.toJson = none := by
  cases value with
  | integer _ => exact absurd trivial infinite
  | float number =>
      cases number with
      | nan => rfl
      | infinite _ => rfl
      | finite _ _ _ => exact absurd rfl infinite
  | text _ => exact absurd trivial infinite

end Value

namespace Record

def IsFinite (record : Record) : Prop :=
  ∀ field value, record.get? field = some value → value.IsFinite

/-- Every floating-point number in a record is read back from the way it is written. -/
def Rereads (readFloat : Json.FloatReader) (record : Record) : Prop :=
  ∀ field value, record.get? field = some value → value.Rereads readFloat

theorem ofList_eq (values : List (String × Value)) :
    ofList values = ⟨values.foldl (fun made binding => made.insert binding.1 binding.2) ∅⟩ :=
  List.foldl_hom Record.mk fun _ _ => rfl

theorem get?_ofList (values : List (String × Value)) (field : String) :
    (ofList values).get? field = values.reverse.lookup field := by
  have last := Collection.getElem?_foldl_insert id values field
  rw [Option.map_id] at last
  rw [ofList_eq]
  exact last

theorem forall_get?_ofList {holds : Value → Prop} {values : List (String × Value)}
    (each : ∀ binding ∈ values, holds binding.2) :
    ∀ field value, (ofList values).get? field = some value → holds value := by
  intro field value held
  rw [get?_ofList, List.lookup_eq_some_iff] at held
  obtain ⟨before, after, split, -⟩ := held
  have member : (field, value) ∈ values := by
    rw [← List.mem_reverse, split]
    exact List.mem_append_right before List.mem_cons_self
  exact each (field, value) member

theorem rereads_nearest (record : Record) : record.Rereads Json.Numeral.nearest? := by
  intro field value _
  cases value with
  | integer number => trivial
  | float number => exact Json.rereads_nearest number
  | text written => trivial

theorem mem_toList_iff {record : Record} {field : String} {value : Value} :
    (field, value) ∈ record.toList ↔ record.get? field = some value :=
  Std.ExtTreeMap.mem_toList_iff_getElem?_eq_some

theorem ofList_toList (record : Record) : ofList record.toList = record := by
  rw [ofList_eq, toList, Collection.foldl_insert_toList]

theorem toJson_eq (record : Record) : record.toJson =
    .object (record.toList.map fun binding => (.ofText binding.1, binding.2.toJson)) := rfl

theorem readable_toJson (record : Record) : record.toJson.Readable :=
  Json.readable_object_map Prod.fst (fun binding => binding.2.readable_toJson) record.toList

theorem ofJson?_object (readFloat : Json.FloatReader) (members : List (Json.Quoted × Json)) :
    ofJson? readFloat (.object members) = (Json.members? members).bind fun members =>
      (members.mapM fun member =>
        (Value.ofJson? readFloat member.2).map fun value => (member.1, value)).bind
          fun values => some (ofList values) := rfl

theorem ofJson?_toJson_eq (readFloat : Json.FloatReader) (record : Record) :
    ofJson? readFloat record.toJson =
      ((record.toList.map fun binding => (binding.1, binding.2.toJson)).mapM fun member =>
        (Value.ofJson? readFloat member.2).map fun value => (member.1, value)).bind
          fun values => some (ofList values) := by
  have named := Json.members?_ofText (record.toList.map fun binding => (binding.1, binding.2.toJson))
  rw [List.map_map] at named
  rw [toJson_eq, ofJson?_object]
  exact congrArg (Option.bind · _) named

theorem ofJson?_toJson {readFloat : Json.FloatReader} {record : Record} (finite : record.IsFinite)
    (rereads : record.Rereads readFloat) : ofJson? readFloat record.toJson = some record := by
  rw [ofJson?_toJson_eq, Collection.mapM_map, Option.bind_some, ofList_toList]
  intro binding member
  have held := mem_toList_iff.mp member
  rw [Value.ofJson?_toJson (finite binding.1 binding.2 held) (rereads binding.1 binding.2 held)]
  rfl

theorem ofJson?_toJson_eq_none (readFloat : Json.FloatReader) {record : Record}
    (infinite : ¬record.IsFinite) : ofJson? readFloat record.toJson = none := by
  simp only [IsFinite, not_forall] at infinite
  obtain ⟨field, value, held, infinite⟩ := infinite
  have written := List.mem_map_of_mem (f := fun binding : String × Value =>
    (binding.1, binding.2.toJson)) (mem_toList_iff.mpr held)
  rw [ofJson?_toJson_eq, Collection.mapM_eq_none written]
  · rfl
  · rw [Value.ofJson?_toJson_eq_none readFloat infinite]
    rfl

end Record

end Rulebook
