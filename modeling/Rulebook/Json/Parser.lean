import Rulebook.Json.Lexeme

/-!
The JSON value that a text writes. Lexemes are taken one at a time, and the arrays and objects that
are still open wait on a stack, so a value may be nested as deep as it likes.
-/

namespace Rulebook.Json

inductive Frame where
  | array (items : List Json)
  | object (members : List (Quoted × Json)) (name : Quoted)

/-- What may come next, with the open containers around it from the innermost on. -/
inductive Expected where
  | value (stack : List Frame)
  | firstItem (stack : List Frame)
  | afterItem (items : List Json) (stack : List Frame)
  | firstName (stack : List Frame)
  | name (members : List (Quoted × Json)) (stack : List Frame)
  | colon (members : List (Quoted × Json)) (name : Quoted) (stack : List Frame)
  | afterMember (members : List (Quoted × Json)) (stack : List Frame)
  | nothing (value : Json)

namespace Expected

def after (value : Json) : List Frame → Expected
  | [] => nothing value
  | .array items :: stack => afterItem (value :: items) stack
  | .object members key :: stack => afterMember ((key, value) :: members) stack

def startValue? (stack : List Frame) : Lexeme → Option Expected
  | .null => some (after .null stack)
  | .bool truth => some (after (.bool truth) stack)
  | .number numeral => some (after (.number numeral) stack)
  | .quoted written => some (after (.string written) stack)
  | .openBracket => some (firstItem stack)
  | .openBrace => some (firstName stack)
  | _ => none

def next? : Expected → Lexeme → Option Expected
  | .value stack, lexeme => startValue? stack lexeme
  | .firstItem stack, .closeBracket => some (after (.array []) stack)
  | .firstItem stack, lexeme => startValue? (.array [] :: stack) lexeme
  | .afterItem items stack, .comma => some (.value (.array items :: stack))
  | .afterItem items stack, .closeBracket => some (after (.array items.reverse) stack)
  | .firstName stack, .closeBrace => some (after (.object []) stack)
  | .firstName stack, .quoted written => some (.colon [] written stack)
  | .name members stack, .quoted written => some (.colon members written stack)
  | .colon members written stack, .colon => some (.value (.object members written :: stack))
  | .afterMember members stack, .comma => some (.name members stack)
  | .afterMember members stack, .closeBrace => some (after (.object members.reverse) stack)
  | _, _ => none

end Expected

def ofLexemes? (lexemes : List Lexeme) : Option Json := do
  match ← lexemes.foldlM Expected.next? (.value []) with
  | .nothing value => some value
  | _ => none

def parse? (text : String) : Option Json :=
  (Lexeme.split? text.toList).bind ofLexemes?

end Rulebook.Json
