import Rulebook.Json.Lexeme
import Rulebook.Json.Printer

/-!
Written strings: the written form of a text means that text, and the characters of a written string
are read as its pieces.
-/

namespace Rulebook.Json

namespace Quoted

theorem unit_of_small : ∀ code < 0x80,
    isHighSurrogate code.toUInt16 = false ∧ isLowSurrogate code.toUInt16 = false ∧
      code.toUInt16.toNat = code := by
  decide

theorem next?_ofChar (read : List Char) (char : Char) :
    Reading.next? ⟨read, none⟩ (Piece.ofChar char) = some ⟨char :: read, none⟩ := by
  unfold Piece.ofChar
  split
  next escaped =>
    have small : char.toNat < 0x80 := by
      rcases escaped with rfl | rfl | control
      · decide
      · decide
      · omega
    obtain ⟨notHigh, notLow, same⟩ := unit_of_small char.toNat small
    simp only [Reading.next?, notHigh, notLow, same, Char.ofNat_toNat]
    rfl
  next => rfl

theorem foldlM_next?_ofChar (chars read : List Char) :
    (chars.map Piece.ofChar).foldlM Reading.next? ⟨read, none⟩ =
      some ⟨chars.reverse ++ read, none⟩ := by
  induction chars generalizing read with
  | nil => rfl
  | cons char chars ih =>
      rw [List.map_cons, List.foldlM_cons, next?_ofChar]
      simpa using ih (char :: read)

@[simp] theorem text?_ofText (text : String) : (ofText text).text? = some text := by
  have read := foldlM_next?_ofChar text.toList []
  rw [text?, ofText, read]
  simp

end Quoted

namespace Piece

def Readable : Piece → Prop
  | plain char => char ≠ '"' ∧ char ≠ '\\' ∧ ¬char.toNat < 0x20
  | escaped _ => True

theorem readable_ofChar (char : Char) : (ofChar char).Readable := by
  unfold ofChar
  split
  next => trivial
  next unescaped => simpa [Readable] using unescaped

theorem hexValue?_hexChar : ∀ value < 16, hexValue? (hexChar value) = some value := by
  decide

theorem unitOfLetter?_of_letterOfUnit? {unit : UInt16} {letter : Char}
    (found : letterOfUnit? unit = some letter) :
    letter ≠ 'u' ∧ unitOfLetter? letter = some unit := by
  simp only [letterOfUnit?, Option.map_eq_some_iff] at found
  obtain ⟨escape, escapeFound, rfl⟩ := found
  have same := List.find?_some escapeFound
  have member := List.mem_of_find?_eq_some escapeFound
  have table : ∀ escape ∈ letterEscapes,
      escape.1 ≠ 'u' ∧ unitOfLetter? escape.1 = some escape.2 := by
    decide
  rw [← eq_of_beq same]
  exact table escape member

end Piece

open Lexeme in
theorem Piece.foldlM_next?_chars {piece : Piece} (readable : piece.Readable)
    (lexemes : List Lexeme) (written : Quoted) :
    piece.chars.foldlM Scan.next? ⟨lexemes, .quoted written⟩ =
      some ⟨lexemes, .quoted (piece :: written)⟩ := by
  cases piece with
  | plain char =>
      obtain ⟨notQuote, notBackslash, notControl⟩ := readable
      simp [chars, Scan.next?, Scan.nextQuoted?, notQuote, notBackslash, notControl]
  | escaped unit =>
      cases found : letterOfUnit? unit with
      | some letter =>
          obtain ⟨notUnit, read⟩ := unitOfLetter?_of_letterOfUnit? found
          simp [chars, found, Scan.next?, Scan.nextQuoted?, Scan.nextEscape?, notUnit, read]
      | none =>
          have bound : unit.toNat < 65536 := unit.toNat_lt
          have first := hexValue?_hexChar (unit.toNat / 4096) (by omega)
          have second := hexValue?_hexChar (unit.toNat / 256 % 16) (by omega)
          have third := hexValue?_hexChar (unit.toNat / 16 % 16) (by omega)
          have fourth := hexValue?_hexChar (unit.toNat % 16) (by omega)
          have digits : 16 * (16 * (16 * (unit.toNat / 4096) + unit.toNat / 256 % 16) +
              unit.toNat / 16 % 16) + unit.toNat % 16 = unit.toNat := by
            omega
          have joined := UInt16.ofNat_toNat (x := unit)
          rw [← digits] at joined
          simpa [chars, found, Scan.next?, Scan.nextQuoted?, Scan.nextEscape?, Scan.nextUnit?,
            first, second, third, fourth] using joined

end Rulebook.Json
