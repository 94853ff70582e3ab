import Rulebook.Json.Lexeme

/-!
The text of a JSON value, without blanks.
-/

namespace Rulebook.Json

def Lexeme.chars : Lexeme → List Char
  | openBrace => ['{']
  | closeBrace => ['}']
  | openBracket => ['[']
  | closeBracket => [']']
  | comma => [',']
  | colon => [':']
  | quoted written => '"' :: (written.flatMap Piece.chars ++ ['"'])
  | null => "null".toList
  | bool true => "true".toList
  | bool false => "false".toList
  | number numeral => numeral.chars

mutual

def lexemes : Json → List Lexeme → List Lexeme
  | .null, rest => .null :: rest
  | .bool value, rest => .bool value :: rest
  | .number numeral, rest => .number numeral :: rest
  | .string written, rest => .quoted written :: rest
  | .array items, rest => .openBracket :: itemLexemes items (.closeBracket :: rest)
  | .object members, rest => .openBrace :: memberLexemes members (.closeBrace :: rest)
termination_by structural value => value

def itemLexemes : List Json → List Lexeme → List Lexeme
  | [], rest => rest
  | item :: items, rest => item.lexemes (laterItemLexemes items rest)
termination_by structural items => items

def laterItemLexemes : List Json → List Lexeme → List Lexeme
  | [], rest => rest
  | item :: items, rest => .comma :: item.lexemes (laterItemLexemes items rest)
termination_by structural items => items

def memberLexemes : List (Quoted × Json) → List Lexeme → List Lexeme
  | [], rest => rest
  | member :: members, rest => memberLexeme member (laterMemberLexemes members rest)
termination_by structural members => members

def laterMemberLexemes : List (Quoted × Json) → List Lexeme → List Lexeme
  | [], rest => rest
  | member :: members, rest => .comma :: memberLexeme member (laterMemberLexemes members rest)
termination_by structural members => members

def memberLexeme : Quoted × Json → List Lexeme → List Lexeme
  | (name, value), rest => .quoted name :: .colon :: value.lexemes rest
termination_by structural member => member

end

def render (value : Json) : String :=
  String.ofList ((value.lexemes []).flatMap Lexeme.chars)

end Rulebook.Json
