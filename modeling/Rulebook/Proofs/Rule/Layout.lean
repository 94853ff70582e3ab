import Mathlib.Data.List.Chain
import Rulebook.Proofs.Rule.Tokens

/-!
Texts as tokens set in a row with blanks around them. Every text can be set so, and in whatever way it
is, the tokens it falls into are those that were set. So nothing of a text is lost but its blanks, and
no word is divided or joined with another one.
-/

namespace Rulebook.Token

def IsTokenText (text : String) : Prop :=
  text = "(" ∨ text = ")" ∨ IsWord text

def Ends (rest : List Char) : Prop :=
  ∀ char ∈ rest.head?, ¬IsWordChar char

def rowChars (row : List (String × List Char)) : List Char :=
  row.flatMap fun placed => placed.1.toList ++ placed.2

/-- Tokens in a row, with blanks around them and at least one between two words. -/
structure Layout where
  before : List Char
  row : List (String × List Char)
  tokens : ∀ placed ∈ row, IsTokenText placed.1
  blankBefore : ∀ char ∈ before, Text.isBlank char
  blankAfter : ∀ placed ∈ row, ∀ char ∈ placed.2, Text.isBlank char
  apart : row.IsChain fun placed next => IsWord placed.1 → IsWord next.1 → placed.2 ≠ []

namespace Layout

def texts (layout : Layout) : List String :=
  layout.row.map Prod.fst

def chars (layout : Layout) : List Char :=
  layout.before ++ rowChars layout.row

def text (layout : Layout) : String :=
  String.ofList layout.chars

end Layout

/-! Where a text divides. -/

theorem not_isWordChar_of_isBlank {char : Char} (blank : Text.isBlank char) : ¬IsWordChar char :=
  fun inWord => inWord.2.2 blank

theorem not_isBlank_of_mem {text : String} (isToken : IsTokenText text) {char : Char}
    (member : char ∈ text.toList) : Text.isBlank char = false := by
  rcases isToken with rfl | rfl | isWord
  · obtain rfl : char = '(' := by simpa using member
    decide
  · obtain rfl : char = ')' := by simpa using member
    decide
  · simpa using (isWord.2 char member).2.2

theorem ends_append_iff {text : String} (isToken : IsTokenText text) (rest : List Char) :
    Ends (text.toList ++ rest) ↔ ¬IsWord text := by
  rcases isToken with rfl | rfl | isWord
  · simp [Ends, IsWord, IsWordChar]
  · simp [Ends, IsWord, IsWordChar]
  · refine iff_of_false ?_ (not_not_intro isWord)
    intro ends
    cases letters : text.toList with
    | nil => exact isWord.1 (String.toList_eq_nil_iff.mp letters)
    | cons first later =>
        rw [letters] at ends
        refine ends first rfl (isWord.2 first ?_)
        rw [letters]
        exact List.mem_cons_self

theorem splitChars_append_of_ends (before : List Char) {rest : List Char} (ends : Ends rest) :
    splitChars (before ++ rest) = splitChars before ++ splitChars rest := by
  cases rest with
  | nil => simp [splitChars, Scan.endWord]
  | cons char rest =>
      by_cases blank : Text.isBlank char
      · rw [splitChars_append_blank blank]
        exact congrArg _ (splitChars_append_blank blank [] rest).symm
      · by_cases isOpening : char = '('
        · subst isOpening
          rw [splitChars_append_opening]
          exact congrArg _ (splitChars_append_opening [] rest).symm
        · by_cases isClosing : char = ')'
          · subst isClosing
            rw [splitChars_append_closing]
            exact congrArg _ (splitChars_append_closing [] rest).symm
          · exact absurd ⟨isOpening, isClosing, blank⟩ (ends char rfl)

theorem splitChars_blanks_append {blanks : List Char} (blank : ∀ char ∈ blanks, Text.isBlank char)
    (rest : List Char) : splitChars (blanks ++ rest) = splitChars rest := by
  induction blanks with
  | nil => rfl
  | cons char blanks ih =>
      rw [List.forall_mem_cons] at blank
      exact (splitChars_append_blank blank.1 [] (blanks ++ rest)).trans (ih blank.2)

theorem texts_splitChars_append {text : String} (isToken : IsTokenText text) {rest : List Char}
    (ends : IsWord text → Ends rest) :
    (splitChars (text.toList ++ rest)).map Token.text =
      text :: (splitChars rest).map Token.text := by
  rcases isToken with rfl | rfl | isWord
  · exact congrArg (List.map Token.text) (splitChars_append_opening [] rest)
  · exact congrArg (List.map Token.text) (splitChars_append_closing [] rest)
  · rw [splitChars_append_of_ends _ (ends isWord), splitChars_of_isWord isWord]
    rfl

/-! The tokens of a layout. -/

theorem rowChars_cons (text : String) (gap : List Char) (row : List (String × List Char)) :
    rowChars ((text, gap) :: row) = text.toList ++ (gap ++ rowChars row) := by
  rw [rowChars, List.flatMap_cons, List.append_assoc]
  rfl

theorem ends_append_rowChars_iff {gap : List Char} {row : List (String × List Char)}
    (blank : ∀ char ∈ gap, Text.isBlank char) (tokens : ∀ placed ∈ row, IsTokenText placed.1) :
    Ends (gap ++ rowChars row) ↔ ∀ next ∈ row.head?, IsWord next.1 → gap ≠ [] := by
  cases gap with
  | cons char gap =>
      refine iff_of_true ?_ (by simp)
      rintro _ ⟨⟩
      exact not_isWordChar_of_isBlank (blank char List.mem_cons_self)
  | nil =>
      cases row with
      | nil => simp [Ends, rowChars]
      | cons next row =>
          have isToken := tokens next List.mem_cons_self
          rw [List.nil_append, rowChars_cons, ends_append_iff isToken]
          simp

theorem texts_splitChars_rowChars {row : List (String × List Char)}
    (tokens : ∀ placed ∈ row, IsTokenText placed.1)
    (blank : ∀ placed ∈ row, ∀ char ∈ placed.2, Text.isBlank char)
    (apart : row.IsChain fun placed next => IsWord placed.1 → IsWord next.1 → placed.2 ≠ []) :
    (splitChars (rowChars row)).map Token.text = row.map Prod.fst := by
  induction row with
  | nil => rfl
  | cons placed row ih =>
      obtain ⟨text, gap⟩ := placed
      rw [List.forall_mem_cons] at tokens blank
      rw [List.isChain_cons] at apart
      -- Where no blank follows a word, the row goes on with a parenthesis or not at all.
      have ends : IsWord text → Ends (gap ++ rowChars row) := by
        intro isWord
        rw [ends_append_rowChars_iff blank.1 tokens.2]
        exact fun next isNext => apart.1 next isNext isWord
      rw [rowChars_cons, texts_splitChars_append tokens.1 ends, splitChars_blanks_append blank.1,
        ih tokens.2 blank.2 apart.2]
      rfl

theorem Layout.texts_splitChars (layout : Layout) :
    (splitChars layout.chars).map Token.text = layout.texts := by
  rw [chars, splitChars_blanks_append layout.blankBefore]
  exact texts_splitChars_rowChars layout.tokens layout.blankAfter layout.apart

theorem filter_blanks {blanks : List Char} (blank : ∀ char ∈ blanks, Text.isBlank char) :
    blanks.filter (fun char => !Text.isBlank char) = [] := by
  rw [List.filter_eq_nil_iff]
  intro char member
  simp [blank char member]

theorem filter_rowChars {row : List (String × List Char)}
    (tokens : ∀ placed ∈ row, IsTokenText placed.1)
    (blank : ∀ placed ∈ row, ∀ char ∈ placed.2, Text.isBlank char) :
    (rowChars row).filter (fun char => !Text.isBlank char) =
      (row.map Prod.fst).flatMap String.toList := by
  induction row with
  | nil => rfl
  | cons placed row ih =>
      obtain ⟨text, gap⟩ := placed
      rw [List.forall_mem_cons] at tokens blank
      have kept : text.toList.filter (fun char => !Text.isBlank char) = text.toList := by
        rw [List.filter_eq_self]
        intro char member
        simp [not_isBlank_of_mem tokens.1 member]
      rw [rowChars_cons, List.filter_append, List.filter_append, kept, filter_blanks blank.1,
        List.nil_append, ih tokens.2 blank.2]
      rfl

theorem Layout.filter_chars (layout : Layout) :
    layout.chars.filter (fun char => !Text.isBlank char) = layout.texts.flatMap String.toList := by
  rw [chars, List.filter_append, filter_blanks layout.blankBefore, List.nil_append]
  exact filter_rowChars layout.tokens layout.blankAfter

/-! Every text has a layout. -/

def Layout.cons (text : String) (isToken : IsTokenText text) (layout : Layout)
    (ends : IsWord text → Ends layout.chars) : Layout where
  before := []
  row := (text, layout.before) :: layout.row
  tokens := List.forall_mem_cons.mpr ⟨isToken, layout.tokens⟩
  blankBefore := by simp
  blankAfter := List.forall_mem_cons.mpr ⟨layout.blankBefore, layout.blankAfter⟩
  apart := List.isChain_cons.mpr ⟨fun next isNext isWord =>
    (ends_append_rowChars_iff layout.blankBefore layout.tokens).mp (ends isWord) next isNext,
    layout.apart⟩

def Layout.afterBlank {char : Char} (blank : Text.isBlank char) (layout : Layout) : Layout :=
  { layout with
    before := char :: layout.before
    blankBefore := List.forall_mem_cons.mpr ⟨blank, layout.blankBefore⟩ }

theorem Layout.chars_cons {text : String} (isToken : IsTokenText text) (layout : Layout)
    (ends : IsWord text → Ends layout.chars) :
    (layout.cons text isToken ends).chars = text.toList ++ layout.chars :=
  rowChars_cons text layout.before layout.row

theorem exists_first_word {char : Char} (inWord : IsWordChar char) (chars : List Char) :
    ∃ text rest, char :: chars = text.toList ++ rest ∧ IsWord text ∧ Ends rest ∧
      rest.length ≤ chars.length := by
  let isWordChar := fun char => decide (IsWordChar char)
  have all : ∀ char ∈ chars.takeWhile isWordChar, IsWordChar char := by
    intro char member
    exact of_decide_eq_true (List.all_eq_true.mp List.all_takeWhile char member)
  have stops := List.head?_dropWhile_not isWordChar chars
  refine ⟨String.ofList (char :: chars.takeWhile isWordChar), chars.dropWhile isWordChar, ?_, ⟨?_, ?_⟩,
    ?_, (List.dropWhile_suffix isWordChar).length_le⟩
  · rw [String.toList_ofList, List.cons_append, List.takeWhile_append_dropWhile]
  · simp
  · rw [String.toList_ofList]
    exact List.forall_mem_cons.mpr ⟨inWord, all⟩
  · intro next isNext
    rw [isNext] at stops
    exact of_decide_eq_false stops

theorem exists_first_token {char : Char} (notBlank : ¬Text.isBlank char) (chars : List Char) :
    ∃ text rest, char :: chars = text.toList ++ rest ∧ IsTokenText text ∧
      (IsWord text → Ends rest) ∧ rest.length ≤ chars.length := by
  by_cases inWord : IsWordChar char
  · obtain ⟨text, rest, whole, isWord, ends, shorter⟩ := exists_first_word inWord chars
    exact ⟨text, rest, whole, .inr (.inr isWord), fun _ => ends, shorter⟩
  · have noWord : ¬IsWord (String.singleton char) := by
      intro isWord
      exact inWord (isWord.2 char (by simp))
    have isToken : IsTokenText (String.singleton char) := by
      by_cases isOpening : char = '('
      · subst isOpening
        exact .inl rfl
      by_cases isClosing : char = ')'
      · subst isClosing
        exact .inr (.inl rfl)
      · exact absurd ⟨isOpening, isClosing, notBlank⟩ inWord
    exact ⟨_, chars, by simp, isToken, fun isWord => absurd isWord noWord, Nat.le_refl _⟩

theorem exists_layout (chars : List Char) : ∃ layout : Layout, layout.chars = chars := by
  -- A word is taken with all its characters, so the induction is on the length of what is left.
  generalize length : chars.length = count
  induction count using Nat.strongRecOn generalizing chars with
  | ind count ih =>
      subst length
      cases chars with
      | nil => exact ⟨⟨[], [], by simp, by simp, by simp, .nil⟩, rfl⟩
      | cons char chars =>
          by_cases blank : Text.isBlank char
          · obtain ⟨layout, whole⟩ := ih chars.length (by simp) chars rfl
            exact ⟨layout.afterBlank blank, congrArg (char :: ·) whole⟩
          · obtain ⟨text, rest, whole, isToken, ends, shorter⟩ := exists_first_token blank chars
            obtain ⟨layout, rfl⟩ := ih rest.length (Nat.lt_succ_of_le shorter) rest rfl
            exact ⟨layout.cons text isToken ends, by rw [whole, Layout.chars_cons]⟩

theorem exists_layout_text (text : String) : ∃ layout : Layout, layout.text = text := by
  obtain ⟨layout, whole⟩ := exists_layout text.toList
  exact ⟨layout, by rw [Layout.text, whole, String.ofList_toList]⟩

theorem Layout.texts_split (layout : Layout) :
    (split layout.text).map Token.text = layout.texts := by
  rw [split_eq_splitChars, text, String.toList_ofList, texts_splitChars]

theorem texts_split_intercalate {texts : List String}
    (tokens : ∀ written ∈ texts, IsTokenText written) :
    (split (" ".intercalate texts)).map Token.text = texts := by
  induction texts with
  | nil => rfl
  | cons first texts ih =>
      rw [List.forall_mem_cons] at tokens
      have alone : (splitChars first.toList).map Token.text = [first] := by
        have empty : Ends [] := by simp [Ends]
        rw [← List.append_nil first.toList]
        exact texts_splitChars_append tokens.1 fun _ => empty
      cases texts with
      | nil =>
          rw [String.intercalate_singleton]
          exact alone
      | cons second texts =>
          have chars : (first ++ " " ++ " ".intercalate (second :: texts)).toList =
              first.toList ++ ' ' :: (" ".intercalate (second :: texts)).toList := by simp
          rw [String.intercalate_cons_cons, split_eq_splitChars, chars,
            splitChars_append_blank (by decide), List.map_append, alone]
          exact congrArg (first :: ·) (ih tokens.2)

/-- A text has just the tokens that it sets in a row with blanks around them. -/
theorem texts_split_iff_layout (text : String) (texts : List String) :
    ((split text).map Token.text = texts ↔
      ∃ layout : Layout, layout.texts = texts ∧ layout.text = text) ∧
    text.toList.filter (fun char => !Text.isBlank char) =
      ((split text).map Token.text).flatMap String.toList ∧
    ((∀ written ∈ texts, IsTokenText written) →
      (split (" ".intercalate texts)).map Token.text = texts) := by
  obtain ⟨layout, rfl⟩ := exists_layout_text text
  refine ⟨⟨?_, ?_⟩, ?_, texts_split_intercalate⟩
  · rintro rfl
    exact ⟨layout, layout.texts_split.symm, rfl⟩
  · rintro ⟨other, rfl, same⟩
    rw [← same, other.texts_split]
  · rw [layout.texts_split, ← layout.filter_chars, Layout.text, String.toList_ofList]

theorem texts_split_iff_layout_tight :
    let texts := ["(", "é=1", ")", ")", "AND", "x"]
    (∀ written ∈ texts, IsTokenText written) ∧
      (split "( é=1 ) ) AND x").map Token.text = texts ∧
      ∃ layout : Layout, layout.texts = texts ∧ layout.text = "(é=1))AND\u2003x\n" := by
  intro texts
  have tokens : ∀ written ∈ texts, IsTokenText written := by
    simp [texts, IsTokenText, IsWord, IsWordChar, Text.isBlank]
  have tight : (split "(é=1))AND\u2003x\n").map Token.text = texts := by decide
  exact ⟨tokens, (texts_split_iff_layout "" texts).2.2 tokens,
    (texts_split_iff_layout _ texts).1.mp tight⟩

end Rulebook.Token
