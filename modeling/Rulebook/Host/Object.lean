import Rulebook.Report

/-!
Objects of a dynamically typed host program, and what it can be told went wrong with one.
-/

namespace Rulebook.Host

open Number

/-- An object of the host program; a dictionary lists its items in the order in which their keys
first came. -/
inductive Object where
  | none
  | bool (value : Bool)
  | int (value : Int)
  | float (value : Binary64)
  | text (value : String)
  | list (items : List Object)
  | tuple (items : List Object)
  | dict (items : List (Object × Object))
  | report (value : Report)

instance : Inhabited Object := ⟨.none⟩

inductive FailureKind where
  | wrongType
  | wrongValue
  | missingKey
  | outOfRange
deriving DecidableEq, Repr

structure Failure where
  kind : FailureKind
  message : Option String
deriving DecidableEq, Repr

namespace Failure

def conversion : Failure := ⟨.wrongType, .none⟩

def overflow : Failure := ⟨.outOfRange, .none⟩

def wrongType (message : String) : Failure := ⟨.wrongType, some message⟩

def wrongValue (message : String) : Failure := ⟨.wrongValue, some message⟩

def ofFault (fault : Fault) : Failure :=
  match fault with
  | .missingField _ | .unknownRule _ => ⟨.missingKey, some fault.message⟩
  | .notNumeric .. => ⟨.wrongType, some fault.message⟩
  | _ => ⟨.wrongValue, some fault.message⟩

def lift {α : Type} (result : Except Fault α) : Except Failure α :=
  result.mapError ofFault

end Failure

namespace Object

def units? : Object → Option Int
  | .bool value => some (value.toInt * unitsOfOne)
  | .int value => some (value * unitsOfOne)
  | .float (.finite negative units _) => some (Binary64.signed negative units)
  | _ => .none

mutual

def sameKey : Object → Object → Bool
  | .none, .none => true
  | .text value, .text value' => value == value'
  | .float (.infinite negative), .float (.infinite negative') => negative == negative'
  | .tuple items, .tuple items' => sameKeys items items'
  | object, object' =>
      match object.units?, object'.units? with
      | some units, some units' => units == units'
      | _, _ => false
termination_by structural object => object

def sameKeys : List Object → List Object → Bool
  | [], [] => true
  | item :: items, item' :: items' => item.sameKey item' && sameKeys items items'
  | _, _ => false
termination_by structural items => items

end

def setItem (key value : Object) : List (Object × Object) → List (Object × Object)
  | [] => [(key, value)]
  | (key', value') :: items =>
      if key'.sameKey key then (key', value) :: items else (key', value') :: setItem key value items

def ofItems (items : List (Object × Object)) : Object :=
  .dict (items.foldl (fun items (key, value) => setItem key value items) [])

def item? (items : List (Object × Object)) (name : String) : Option Object :=
  (items.find? fun item => item.1.sameKey (.text name)).map (·.2)

def int? : Object → Option Int
  | .bool value => some value.toInt
  | .int value => some value
  | _ => .none

def readText : Object → Except Failure String
  | .text value => .ok value
  | _ => .error .conversion

def readTexts : Object → Except Failure (List String)
  | .list items | .tuple items => items.mapM readText
  | _ => .error .conversion

def readDict : Object → Except Failure (List (Object × Object))
  | .dict items => .ok items
  | _ => .error .conversion

def readList : Object → Except Failure (List Object)
  | .list items => .ok items
  | _ => .error .conversion

def given? : Object → Option Object
  | .none => .none
  | object => some object

end Object

end Rulebook.Host
