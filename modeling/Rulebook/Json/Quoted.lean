import Rulebook.Json.Basic

/-!
The text of a written string, and the written form of a text. In writing, a quote, a backslash and
the control characters below U+0020 are escaped, and nothing else is. In reading, any character may
be escaped; one beyond the basic plane takes a high and a low surrogate, one right after the other.
-/

namespace Rulebook.Json

def letterEscapes : List (Char × UInt16) :=
  [('"', 0x22), ('\\', 0x5C), ('/', 0x2F), ('b', 0x8), ('f', 0xC), ('n', 0xA), ('r', 0xD),
    ('t', 0x9)]

def unitOfLetter? (letter : Char) : Option UInt16 :=
  (letterEscapes.find? fun escape => escape.1 == letter).map (·.2)

def letterOfUnit? (unit : UInt16) : Option Char :=
  (letterEscapes.find? fun escape => escape.2 == unit).map (·.1)

def hexValue? (char : Char) : Option Nat :=
  if char.isDigit then some (char.toNat - '0'.toNat)
  else if 'a' ≤ char ∧ char ≤ 'f' then some (char.toNat - 'a'.toNat + 10)
  else if 'A' ≤ char ∧ char ≤ 'F' then some (char.toNat - 'A'.toNat + 10)
  else none

def hexChar (value : Nat) : Char :=
  if value < 10 then Char.ofNat ('0'.toNat + value) else Char.ofNat ('a'.toNat + (value - 10))

namespace Piece

def ofChar (char : Char) : Piece :=
  if char = '"' ∨ char = '\\' ∨ char.toNat < 0x20 then .escaped char.toNat.toUInt16 else .plain char

def chars : Piece → List Char
  | .plain char => [char]
  | .escaped unit =>
      match letterOfUnit? unit with
      | some letter => ['\\', letter]
      | none =>
          let code := unit.toNat
          ['\\', 'u', hexChar (code / 4096), hexChar (code / 256 % 16), hexChar (code / 16 % 16),
            hexChar (code % 16)]

end Piece

namespace Quoted

def ofText (text : String) : Quoted :=
  text.toList.map Piece.ofChar

structure Reading where
  read : List Char := []
  high : Option UInt16 := none

def isHighSurrogate (unit : UInt16) : Bool :=
  0xD800 ≤ unit && unit ≤ 0xDBFF

def isLowSurrogate (unit : UInt16) : Bool :=
  0xDC00 ≤ unit && unit ≤ 0xDFFF

def joinSurrogates (high low : UInt16) : Char :=
  Char.ofNat (0x10000 + (high.toNat - 0xD800) * 0x400 + (low.toNat - 0xDC00))

def Reading.next? (reading : Reading) (piece : Piece) : Option Reading :=
  match reading.high, piece with
  | none, .plain char => some { read := char :: reading.read }
  | none, .escaped unit =>
      if isHighSurrogate unit then some { reading with high := some unit }
      else if isLowSurrogate unit then none
      else some { read := Char.ofNat unit.toNat :: reading.read }
  | some high, .escaped unit =>
      if isLowSurrogate unit then some { read := joinSurrogates high unit :: reading.read }
      else none
  | some _, .plain _ => none

/-- The text of a written string, if every surrogate in it has its partner. -/
def text? (written : Quoted) : Option String := do
  let reading ← written.foldlM Reading.next? {}
  match reading.high with
  | none => some (String.ofList reading.read.reverse)
  | some _ => none

end Quoted

end Rulebook.Json
