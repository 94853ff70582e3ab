import Std.Data.ExtTreeMap
import Rulebook.Json.Parser
import Rulebook.Json.Printer
import Rulebook.Value

/-!
Records: values by the names of fields, in the order of the names.
-/

namespace Rulebook

structure Record where
  fields : Std.ExtTreeMap String Value

namespace Record

def empty : Record := ⟨∅⟩

instance : EmptyCollection Record := ⟨empty⟩

instance : Inhabited Record := ⟨empty⟩

def get? (record : Record) (field : String) : Option Value :=
  record.fields[field]?

def insert (record : Record) (field : String) (value : Value) : Record :=
  ⟨record.fields.insert field value⟩

@[simp] theorem get?_insert (record : Record) (field other : String) (value : Value) :
    (record.insert field value).get? other =
      if field = other then some value else record.get? other := by
  simp [insert, get?, Std.ExtTreeMap.getElem?_insert]

theorem ext_get? {record other : Record} (same : ∀ field, record.get? field = other.get? field) :
    record = other := by
  obtain ⟨fields⟩ := record
  obtain ⟨others⟩ := other
  exact congrArg Record.mk (Std.ExtTreeMap.ext_getElem? fun field => same field)

def ofList (values : List (String × Value)) : Record :=
  values.foldl (fun record (field, value) => record.insert field value) empty

def toList (record : Record) : List (String × Value) :=
  record.fields.toList

def size (record : Record) : Nat :=
  record.fields.size

def isEmpty (record : Record) : Bool :=
  record.fields.isEmpty

def toJson (record : Record) : Json :=
  .object (record.toList.map fun (field, value) => (.ofText field, value.toJson))

def ofJson? (readFloat : Json.FloatReader) : Json → Option Record
  | .object members => do
      let members ← Json.members? members
      -- A value that a later one replaces has to be a value of a field all the same.
      let values ← members.mapM fun (field, value) =>
        (Value.ofJson? readFloat value).map fun value => (field, value)
      return ofList values
  | _ => none

def render (record : Record) : String :=
  record.toJson.render

def parse? (text : String) (readFloat : Json.FloatReader := Json.Numeral.toBinary64?) :
    Option Record :=
  (Json.parse? text).bind (ofJson? readFloat)

end Record

end Rulebook
