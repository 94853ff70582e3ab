import Rulebook.Proofs.Json.Quoted

/-!
The lexemes of a text: a row of lexemes is read back from its characters, as long as no two words
stand next to each other.
-/

namespace Rulebook.Json

namespace Numeral

theorem endsWord_digit (digit : Number.Digit) : Lexeme.endsWord digit.char = false := by
  revert digit
  decide

theorem endsWord_digits {value : Nat} {char : Char} (member : char ∈ Number.Digit.chars value) :
    Lexeme.endsWord char = false := by
  unfold Number.Digit.chars at member
  split at member
  · rw [List.mem_singleton.mp member]
    decide
  · obtain ⟨digit, -, rfl⟩ := List.mem_map.mp member
    exact endsWord_digit digit

theorem endsWord_chars {numeral : Numeral} {char : Char} (member : char ∈ numeral.chars) :
    Lexeme.endsWord char = false := by
  simp only [chars, List.mem_append] at member
  rcases member with ((sign | whole) | fraction) | exponent
  · split at sign
    · rw [List.mem_singleton.mp sign]
      decide
    · simp at sign
  · exact endsWord_digits whole
  · split at fraction
    · simp at fraction
    · rcases List.mem_cons.mp fraction with rfl | digits
      · decide
      · obtain ⟨digit, -, rfl⟩ := List.mem_map.mp digits
        exact endsWord_digit digit
  · cases known : numeral.exponent with
    | none => simp [known] at exponent
    | some value =>
        simp only [known, List.mem_cons] at exponent
        rcases exponent with rfl | rfl | digits
        · decide
        · split <;> decide
        · exact endsWord_digits digits

end Numeral

namespace Lexeme

def isWord : Lexeme → Bool
  | null | bool _ | number _ => true
  | _ => false

def Readable : Lexeme → Prop
  | quoted written => ∀ piece ∈ written, piece.Readable
  | number numeral => Numeral.read? numeral.chars = some numeral
  | _ => True

theorem readable_quoted_ofText (text : String) : (quoted (.ofText text)).Readable := by
  intro piece member
  obtain ⟨char, -, rfl⟩ := List.mem_map.mp member
  exact Piece.readable_ofChar char

def Ends (text : List Char) : Prop :=
  ∀ char ∈ text.head?, endsWord char

theorem ofWord?_of_read? {word : List Char} {numeral : Numeral}
    (read : Numeral.read? word = some numeral) : ofWord? word = some (number numeral) := by
  have noName (name : List Char) (unread : Numeral.read? name = none) : word ≠ name := by
    rintro rfl
    rw [unread] at read
    cases read
  rw [ofWord?, if_neg (noName "null".toList (by decide)),
    if_neg (noName "true".toList (by decide)), if_neg (noName "false".toList (by decide)), read]
  rfl

theorem ofWord?_chars {lexeme : Lexeme} (word : lexeme.isWord) (readable : lexeme.Readable) :
    ofWord? lexeme.chars = some lexeme := by
  cases lexeme with
  | null => decide
  | bool value => cases value <;> decide
  | number numeral => exact ofWord?_of_read? readable
  | _ => simp [isWord] at word

theorem endsWord_chars {lexeme : Lexeme} (word : lexeme.isWord) :
    ∀ char ∈ lexeme.chars, endsWord char = false := by
  cases lexeme with
  | null => simp [chars, endsWord, isBlank, ofMark?]
  | bool value => cases value <;> simp [chars, endsWord, isBlank, ofMark?]
  | number numeral => exact fun char member => Numeral.endsWord_chars member
  | _ => simp [isWord] at word

namespace Scan

def outcome (scan : Scan) (text : List Char) : Option (List Lexeme) :=
  (text.foldlM next? scan).bind finish?

theorem outcome_append {scan after : Scan} {front : List Char}
    (read : front.foldlM next? scan = some after) (rest : List Char) :
    scan.outcome (front ++ rest) = after.outcome rest := by
  rw [outcome, List.foldlM_append, read]
  rfl

theorem start_of_not_endsWord {char : Char} (inWord : endsWord char = false)
    (lexemes : List Lexeme) : start lexemes char = ⟨lexemes, .word [char]⟩ := by
  simp only [endsWord, Bool.or_eq_false_iff, beq_eq_false_iff_ne] at inWord
  obtain ⟨⟨notBlank, notQuote⟩, notMark⟩ := inWord
  rw [start, notBlank, if_neg (by decide), if_neg notQuote]
  cases mark : ofMark? char with
  | none => rfl
  | some _ => simp [mark] at notMark

theorem foldlM_next?_word {letters : List Char} (inWord : ∀ char ∈ letters, endsWord char = false)
    (lexemes : List Lexeme) (written : List Char) :
    letters.foldlM next? ⟨lexemes, .word written⟩ =
      some ⟨lexemes, .word (letters.reverse ++ written)⟩ := by
  induction letters generalizing written with
  | nil => rfl
  | cons letter letters ih =>
      rw [List.forall_mem_cons] at inWord
      rw [List.foldlM_cons]
      simp only [next?, inWord.1]
      simpa using ih inWord.2 (letter :: written)

theorem outcome_word {lexeme : Lexeme} (word : lexeme.isWord) (readable : lexeme.Readable)
    (lexemes : List Lexeme) {rest : List Char} (ends : Ends rest) :
    outcome ⟨lexemes, .between⟩ (lexeme.chars ++ rest) =
      outcome ⟨lexeme :: lexemes, .between⟩ rest := by
  have named := ofWord?_chars word readable
  have inWord := endsWord_chars word
  have read : lexeme.chars.foldlM next? ⟨lexemes, .between⟩ =
      some ⟨lexemes, .word lexeme.chars.reverse⟩ := by
    cases letters : lexeme.chars with
    | nil =>
        rw [letters, show ofWord? [] = none by decide] at named
        cases named
    | cons first later =>
        rw [letters, List.forall_mem_cons] at inWord
        rw [List.foldlM_cons]
        simp only [next?, start_of_not_endsWord inWord.1]
        simpa using foldlM_next?_word inWord.2 lexemes [first]
  rw [outcome_append read]
  cases rest with
  | nil => simp [outcome, finish?, named]
  | cons char rest =>
      have ended : endsWord char = true := ends char rfl
      simp [outcome, next?, ended, named]

theorem foldlM_next?_pieces {pieces : Quoted} (readable : ∀ piece ∈ pieces, piece.Readable)
    (lexemes : List Lexeme) (written : Quoted) :
    (pieces.flatMap Piece.chars).foldlM next? ⟨lexemes, .quoted written⟩ =
      some ⟨lexemes, .quoted (pieces.reverse ++ written)⟩ := by
  induction pieces generalizing written with
  | nil => rfl
  | cons piece pieces ih =>
      rw [List.forall_mem_cons] at readable
      rw [List.flatMap_cons, List.foldlM_append, Piece.foldlM_next?_chars readable.1]
      simpa using ih readable.2 (piece :: written)

theorem outcome_quoted {written : Quoted} (readable : (quoted written).Readable)
    (lexemes : List Lexeme) (rest : List Char) :
    outcome ⟨lexemes, .between⟩ ((quoted written).chars ++ rest) =
      outcome ⟨quoted written :: lexemes, .between⟩ rest := by
  have opened : start lexemes '"' = ⟨lexemes, .quoted []⟩ := by
    simp [start, isBlank]
  apply outcome_append
  rw [chars, List.foldlM_cons]
  simp only [next?, opened, Option.bind_eq_bind, Option.bind_some]
  rw [List.foldlM_append, foldlM_next?_pieces readable]
  simp [next?, nextQuoted?]

theorem outcome_lexeme {lexeme : Lexeme} (readable : lexeme.Readable) (lexemes : List Lexeme)
    {rest : List Char} (ends : lexeme.isWord → Ends rest) :
    outcome ⟨lexemes, .between⟩ (lexeme.chars ++ rest) =
      outcome ⟨lexeme :: lexemes, .between⟩ rest := by
  cases lexeme with
  | null | bool _ | number _ => exact outcome_word rfl readable lexemes (ends rfl)
  | quoted written => exact outcome_quoted readable lexemes rest
  | openBrace | closeBrace | openBracket | closeBracket | comma | colon =>
      exact outcome_append rfl rest

end Scan

/-- Whether lexemes can be told from their characters one after another. -/
def Apart : List Lexeme → Prop
  | [] => True
  | lexeme :: rest =>
      lexeme.Readable ∧ (lexeme.isWord → ∀ next ∈ rest.head?, ¬next.isWord) ∧ Apart rest

theorem ends_flatMap_chars {lexemes : List Lexeme}
    (noWord : ∀ next ∈ lexemes.head?, ¬next.isWord) : Ends (lexemes.flatMap chars) := by
  cases lexemes with
  | nil => simp [Ends]
  | cons next rest =>
      have mark : ¬next.isWord := noWord next rfl
      cases next with
      | null | bool _ | number _ => exact absurd rfl mark
      | openBrace | closeBrace | openBracket | closeBracket | comma | colon | quoted _ =>
          simp [Ends, chars, endsWord, isBlank, ofMark?]

theorem outcome_flatMap_chars {lexemes : List Lexeme} (apart : Apart lexemes)
    (before : List Lexeme) :
    Scan.outcome ⟨before, .between⟩ (lexemes.flatMap chars) = some (before.reverse ++ lexemes) := by
  induction lexemes generalizing before with
  | nil => simp [Scan.outcome, Scan.finish?]
  | cons lexeme lexemes ih =>
      obtain ⟨readable, noWord, apart⟩ := apart
      rw [List.flatMap_cons, Scan.outcome_lexeme readable before
        fun word => ends_flatMap_chars (noWord word), ih apart]
      simp

/-- Lexemes are read back from their characters. -/
theorem split?_flatMap_chars {lexemes : List Lexeme} (apart : Apart lexemes) :
    split? (lexemes.flatMap chars) = some lexemes :=
  outcome_flatMap_chars apart []

end Lexeme

end Rulebook.Json
