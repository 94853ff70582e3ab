import Rulebook.Json.Numeral
import Rulebook.Json.Quoted

/-!
The lexemes of a JSON text: punctuation, quoted strings, and the words `null`, `true`, `false` and
numerals. A word runs as far as it can, up to a blank, a punctuation mark or a quote. `Lexeme.split?`
reads a text one character at a time.
-/

namespace Rulebook.Json

inductive Lexeme where
  | openBrace
  | closeBrace
  | openBracket
  | closeBracket
  | comma
  | colon
  | quoted (written : Quoted)
  | null
  | bool (value : Bool)
  | number (numeral : Numeral)
deriving DecidableEq, Repr

namespace Lexeme

def isBlank (char : Char) : Bool :=
  char == ' ' || char == '\t' || char == '\n' || char == '\r'

def ofMark? : Char → Option Lexeme
  | '{' => some openBrace
  | '}' => some closeBrace
  | '[' => some openBracket
  | ']' => some closeBracket
  | ',' => some comma
  | ':' => some colon
  | _ => none

def endsWord (char : Char) : Bool :=
  isBlank char || char == '"' || (ofMark? char).isSome

def ofWord? (word : List Char) : Option Lexeme :=
  if word = "null".toList then some null
  else if word = "true".toList then some (bool true)
  else if word = "false".toList then some (bool false)
  else (Numeral.read? word).map number

inductive Reading where
  | between
  | word (written : List Char)
  | quoted (written : Quoted)
  | escape (written : Quoted)
  | unit (written : Quoted) (digits value : Nat)

/-- A text partly read: its lexemes so far, the newest first, and what is being read. -/
structure Scan where
  lexemes : List Lexeme := []
  reading : Reading := .between

namespace Scan

def start (lexemes : List Lexeme) (char : Char) : Scan :=
  if isBlank char then ⟨lexemes, .between⟩
  else if char = '"' then ⟨lexemes, .quoted []⟩
  else match ofMark? char with
    | some mark => ⟨mark :: lexemes, .between⟩
    | none => ⟨lexemes, .word [char]⟩

def nextQuoted? (lexemes : List Lexeme) (written : Quoted) (char : Char) : Option Scan :=
  if char = '"' then some ⟨.quoted written.reverse :: lexemes, .between⟩
  else if char = '\\' then some ⟨lexemes, .escape written⟩
  else if char.toNat < 0x20 then none
  else some ⟨lexemes, .quoted (.plain char :: written)⟩

def nextEscape? (lexemes : List Lexeme) (written : Quoted) (char : Char) : Option Scan :=
  if char = 'u' then some ⟨lexemes, .unit written 0 0⟩
  else (unitOfLetter? char).map fun unit => ⟨lexemes, .quoted (.escaped unit :: written)⟩

def nextUnit? (lexemes : List Lexeme) (written : Quoted) (digits value : Nat) (char : Char) :
    Option Scan :=
  (hexValue? char).map fun digit =>
    let value := 16 * value + digit
    if digits = 3 then ⟨lexemes, .quoted (.escaped value.toUInt16 :: written)⟩
    else ⟨lexemes, .unit written (digits + 1) value⟩

def next? (scan : Scan) (char : Char) : Option Scan :=
  match scan.reading with
  | .between => some (start scan.lexemes char)
  | .word written =>
      if endsWord char then
        (ofWord? written.reverse).map fun word => start (word :: scan.lexemes) char
      else some ⟨scan.lexemes, .word (char :: written)⟩
  | .quoted written => nextQuoted? scan.lexemes written char
  | .escape written => nextEscape? scan.lexemes written char
  | .unit written digits value => nextUnit? scan.lexemes written digits value char

def finish? (scan : Scan) : Option (List Lexeme) :=
  match scan.reading with
  | .between => some scan.lexemes.reverse
  | .word written => (ofWord? written.reverse).map fun word => (word :: scan.lexemes).reverse
  | _ => none

end Scan

def split? (text : List Char) : Option (List Lexeme) :=
  (text.foldlM Scan.next? {}).bind Scan.finish?

end Lexeme

end Rulebook.Json
