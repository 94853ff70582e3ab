import Rulebook.Number.Decimal

/-!
JSON values as they are written: a string keeps its escapes, a number its parts, and an object its
members in order, repeated names included. What a string or number means is read off on demand, so
a value that nobody asks for may hold a string or a number that has no meaning.
-/

namespace Rulebook

namespace Json

inductive Piece where
  | plain (char : Char)
  | escaped (unit : UInt16)
deriving DecidableEq, Repr

abbrev Quoted := List Piece

/-- A written number, with an empty fraction if there is no point. -/
structure Numeral where
  negative : Bool
  whole : Nat
  fraction : List Number.Digit
  exponent : Option Int
deriving DecidableEq, Repr

end Json

inductive Json where
  | null
  | bool (value : Bool)
  | number (numeral : Json.Numeral)
  | string (written : Json.Quoted)
  | array (items : List Json)
  | object (members : List (Json.Quoted × Json))
deriving Repr

instance : Inhabited Json := ⟨.null⟩

end Rulebook
