import Rulebook.Text.Blank

/-!
The tokens of a rule: parentheses, and words of anything else. Blanks stand between words and are
otherwise of no account; a parenthesis ends a word. Nothing is quoted or escaped.
-/

namespace Rulebook

inductive Token where
  | opening
  | closing
  | word (text : String)
deriving DecidableEq, Repr

namespace Token

def text : Token → String
  | opening => "("
  | closing => ")"
  | word text => text

def ofText (text : String) : Token :=
  if text = "(" then opening else if text = ")" then closing else word text

@[simp] theorem text_ofText (text : String) : (ofText text).text = text := by
  grind [ofText, Token.text]

/-- A text partly read: its tokens so far, and the word being read, both the newest first. -/
structure Scan where
  tokens : List Token := []
  word : List Char := []

namespace Scan

def endWord (scan : Scan) : Scan :=
  match scan.word with
  | [] => scan
  | letters => { tokens := .word (String.ofList letters.reverse) :: scan.tokens }

def mark (scan : Scan) (token : Token) : Scan :=
  { tokens := token :: scan.endWord.tokens }

def next (scan : Scan) (char : Char) : Scan :=
  if char = '(' then scan.mark .opening
  else if char = ')' then scan.mark .closing
  else if Text.isBlank char then scan.endWord
  else { scan with word := char :: scan.word }

end Scan

def split (text : String) : List Token :=
  (text.toList.foldl Scan.next {}).endWord.tokens.reverse

end Token

end Rulebook
