/-!
Blank characters, and what is left of a text once an edge class of characters is taken off it.
Blanks are the characters with the Unicode property `White_Space`.
-/

namespace Rulebook.Text

/-- A character with the Unicode property `White_Space`. -/
def isBlank (char : Char) : Bool :=
  let code := char.toNat
  (0x9 ≤ code && code ≤ 0xD) || code == 0x20 || code == 0x85 || code == 0xA0 || code == 0x1680 ||
    (0x2000 ≤ code && code ≤ 0x200A) || code == 0x2028 || code == 0x2029 || code == 0x202F ||
    code == 0x205F || code == 0x3000

def dropEdges (edge : Char → Bool) (text : List Char) : List Char :=
  ((text.dropWhile edge).reverse.dropWhile edge).reverse

def trim (text : String) : String :=
  String.ofList (dropEdges isBlank text.toList)

end Rulebook.Text
