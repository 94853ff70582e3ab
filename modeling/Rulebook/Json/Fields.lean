import Rulebook.Json.Quoted

/-!
Reading values of a known shape: texts, names out of a fixed set, and structures with fixed fields.
A structure is written as an object, or as an array of its fields in order.
-/

namespace Rulebook.Json

def ofText (text : String) : Json :=
  .string (Quoted.ofText text)

def text? : Json → Option String
  | .string written => written.text?
  | _ => none

def name? (levels : Nat) : Json → Option String
  | .string written => written.text?
  -- The object is one more level of nesting.
  | .object [(written, .null)] => if levels = 0 then none else written.text?
  | _ => none

inductive Fields where
  | named (members : List (String × Json))
  | listed (values : List Json)

def members? (members : List (Quoted × Json)) : Option (List (String × Json)) :=
  members.mapM fun (written, value) => written.text?.map fun name => (name, value)

def fields? (count : Nat) : Json → Option Fields
  | .object members => (members? members).map .named
  | .array values => if values.length ≤ count then some (.listed values) else none
  | _ => none

def Fields.find? (place : Nat) (name : String) : Fields → Option (Option Json)
  | .listed values => some values[place]?
  | .named members =>
      -- No field may be repeated, and members with other names are of no account.
      match members.filter fun member => member.1 == name with
      | [] => some none
      | [(_, value)] => some (some value)
      | _ => none

end Rulebook.Json
