import Rulebook.Rule.Basic
import Rulebook.Rule.Token

/-!
Where a text falls into tokens. A parenthesis or a blank ends whatever is before it, so the tokens
of a text with one in it are those of its two parts, and blanks at the edges are of no account. What
is left are words, and each of them is a token as it stands.
-/

namespace Rulebook.Token

def splitChars (chars : List Char) : List Token :=
  (chars.foldl Scan.next {}).endWord.tokens.reverse

theorem split_eq_splitChars (text : String) : split text = splitChars text.toList := rfl

namespace Scan

def following (scan : Scan) (earlier : List Token) : Scan :=
  { scan with tokens := scan.tokens ++ earlier }

theorem endWord_following (scan : Scan) (earlier : List Token) :
    (scan.following earlier).endWord = scan.endWord.following earlier := by
  unfold following endWord
  split <;> simp_all

theorem next_following (scan : Scan) (earlier : List Token) (char : Char) :
    (scan.following earlier).next char = (scan.next char).following earlier := by
  have marked (token : Token) :
      (scan.following earlier).mark token = (scan.mark token).following earlier := by
    simp only [mark, endWord_following]
    rfl
  unfold next
  split
  · exact marked _
  split
  · exact marked _
  split
  · exact endWord_following scan earlier
  · rfl

theorem word_endWord (scan : Scan) : scan.endWord.word = [] := by
  unfold endWord
  split <;> simp_all

theorem foldl_next_of_word_eq_nil {scan : Scan} (between : scan.word = []) (chars : List Char) :
    (chars.foldl next scan).endWord.tokens.reverse = scan.tokens.reverse ++ splitChars chars := by
  have start : scan = ({} : Scan).following scan.tokens := by
    cases scan
    simp_all [following]
  rw [start, List.foldl_hom (fun scan' : Scan => scan'.following scan.tokens)
    (fun scan' char => next_following scan' scan.tokens char), endWord_following]
  simp [following, splitChars]

end Scan

theorem splitChars_append_cons (marks : List Token) {char : Char}
    (ends : ∀ scan : Scan, scan.next char = ⟨marks ++ scan.endWord.tokens, []⟩)
    (before after : List Char) :
    splitChars (before ++ char :: after) =
      splitChars before ++ (marks.reverse ++ splitChars after) := by
  rw [splitChars, List.foldl_append, List.foldl_cons, ends, Scan.foldl_next_of_word_eq_nil rfl,
    List.reverse_append, List.append_assoc]
  rfl

theorem splitChars_append_opening (before after : List Char) :
    splitChars (before ++ '(' :: after) = splitChars before ++ opening :: splitChars after :=
  splitChars_append_cons [opening] (fun _ => rfl) before after

theorem splitChars_append_closing (before after : List Char) :
    splitChars (before ++ ')' :: after) = splitChars before ++ closing :: splitChars after :=
  splitChars_append_cons [closing] (fun _ => rfl) before after

theorem splitChars_append_blank {char : Char} (blank : Text.isBlank char)
    (before after : List Char) :
    splitChars (before ++ char :: after) = splitChars before ++ splitChars after := by
  have notOpening : char ≠ '(' := by
    rintro rfl
    exact absurd blank (by decide)
  have notClosing : char ≠ ')' := by
    rintro rfl
    exact absurd blank (by decide)
  apply splitChars_append_cons []
  intro scan
  simp only [Scan.next, notOpening, notClosing, blank, if_false, if_true, List.nil_append]
  rw [← Scan.word_endWord scan]

theorem splitChars_dropWhile_blank (chars : List Char) :
    splitChars (chars.dropWhile Text.isBlank) = splitChars chars := by
  induction chars with
  | nil => rfl
  | cons char chars ih =>
      by_cases blank : Text.isBlank char
      · rw [List.dropWhile_cons_of_pos blank, ih]
        exact (splitChars_append_blank blank [] chars).symm
      · rw [List.dropWhile_cons_of_neg blank]

theorem splitChars_reverse_dropWhile_blank (chars : List Char) :
    splitChars (chars.dropWhile Text.isBlank).reverse = splitChars chars.reverse := by
  induction chars with
  | nil => rfl
  | cons char chars ih =>
      by_cases blank : Text.isBlank char
      · rw [List.dropWhile_cons_of_pos blank, ih, List.reverse_cons,
          splitChars_append_blank blank]
        exact (List.append_nil _).symm
      · rw [List.dropWhile_cons_of_neg blank]

theorem split_trim (text : String) : split (Text.trim text) = split text := by
  rw [split_eq_splitChars, split_eq_splitChars, Text.trim, String.toList_ofList, Text.dropEdges,
    splitChars_reverse_dropWhile_blank, List.reverse_reverse, splitChars_dropWhile_blank]

theorem split_group (text : String) :
    split ("(" ++ text ++ ")") = opening :: (split text ++ [closing]) := by
  have chars : ("(" ++ text ++ ")").toList = [] ++ '(' :: (text.toList ++ ')' :: []) := by
    simp
  rw [split_eq_splitChars, chars, splitChars_append_opening, splitChars_append_closing]
  rfl

def IsWordChar (char : Char) : Prop :=
  char ≠ '(' ∧ char ≠ ')' ∧ ¬Text.isBlank char

instance (char : Char) : Decidable (IsWordChar char) :=
  inferInstanceAs (Decidable (_ ∧ _ ∧ _))

def IsWord (text : String) : Prop :=
  text ≠ "" ∧ ∀ char ∈ text.toList, IsWordChar char

def Written : Token → Prop
  | opening | closing => True
  | word text => IsWord text

namespace Scan

theorem next_of_isWordChar {char : Char} (inWord : IsWordChar char) (scan : Scan) :
    scan.next char = { scan with word := char :: scan.word } := by
  obtain ⟨notOpening, notClosing, notBlank⟩ := inWord
  simp [next, notOpening, notClosing, notBlank]

theorem foldl_next_of_isWordChar {chars : List Char} (inWord : ∀ char ∈ chars, IsWordChar char)
    (scan : Scan) :
    chars.foldl next scan = { scan with word := chars.reverse ++ scan.word } := by
  induction chars generalizing scan with
  | nil => rfl
  | cons char chars ih =>
      rw [List.forall_mem_cons] at inWord
      rw [List.foldl_cons, next_of_isWordChar inWord.1, ih inWord.2]
      simp

structure Sound (scan : Scan) : Prop where
  tokens : ∀ token ∈ scan.tokens, token.Written
  word : ∀ char ∈ scan.word, IsWordChar char

theorem Sound.endWord {scan : Scan} (sound : scan.Sound) : scan.endWord.Sound := by
  unfold Scan.endWord
  split
  · exact sound
  · next notEmpty =>
      constructor
      · intro token member
        rcases List.mem_cons.mp member with rfl | earlier
        · constructor
          · simp_all
          · simpa using sound.word
        · exact sound.tokens token earlier
      · simp

theorem Sound.mark {scan : Scan} (sound : scan.Sound) {token : Token} (written : token.Written) :
    (scan.mark token).Sound := by
  constructor
  · exact List.forall_mem_cons.mpr ⟨written, sound.endWord.tokens⟩
  · simp [Scan.mark]

theorem Sound.next {scan : Scan} (sound : scan.Sound) (char : Char) : (scan.next char).Sound := by
  by_cases inWord : IsWordChar char
  · rw [next_of_isWordChar inWord]
    exact ⟨sound.tokens, List.forall_mem_cons.mpr ⟨inWord, sound.word⟩⟩
  · unfold Scan.next
    split
    · exact sound.mark trivial
    split
    · exact sound.mark trivial
    split
    · exact sound.endWord
    · next notOpening notClosing notBlank => exact absurd ⟨notOpening, notClosing, notBlank⟩ inWord

theorem Sound.foldl {scan : Scan} (sound : scan.Sound) (chars : List Char) :
    (chars.foldl Scan.next scan).Sound := by
  induction chars generalizing scan with
  | nil => exact sound
  | cons char chars ih => exact ih (sound.next char)

end Scan

theorem written_of_mem_split {text : String} {token : Token} (member : token ∈ split text) :
    token.Written := by
  have start : Scan.Sound {} := by
    constructor
    · simp
    · simp
  exact (start.foldl text.toList).endWord.tokens token (List.mem_reverse.mp member)

theorem splitChars_of_isWord {text : String} (isWord : IsWord text) :
    splitChars text.toList = [word text] := by
  have notEmpty : text.toList.reverse ≠ [] := by
    simpa using isWord.1
  rw [splitChars, Scan.foldl_next_of_isWordChar isWord.2, List.append_nil, Scan.endWord]
  split
  · next empty => exact absurd empty notEmpty
  · simp

theorem splitChars_text {token : Token} (written : token.Written) :
    splitChars token.text.toList = [token] := by
  cases token with
  | opening => rfl
  | closing => rfl
  | word text => exact splitChars_of_isWord written

theorem splitChars_connective (connective : Connective) :
    splitChars connective.text.toList = [word connective.text] := by
  cases connective <;> decide

theorem splitChars_relation (relation : Relation) :
    splitChars relation.text.toList = [word relation.text] := by
  cases relation <;> decide

end Rulebook.Token
