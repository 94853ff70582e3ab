/-!
The bytes of texts in UTF-8: they are in the order of the characters, because a larger code point takes
more bytes, which the first of them shows, or as many bytes that are larger from the left.
-/

namespace Rulebook.Text

def bytes (text : String) : List UInt8 :=
  text.toByteArray.data.toList

theorem bytes_eq_flatMap (text : String) :
    bytes text = text.toList.flatMap String.utf8EncodeChar := by
  obtain ⟨chars, rfl⟩ : ∃ chars, text = String.ofList chars := ⟨text.toList, String.ofList_toList.symm⟩
  rw [bytes, String.toByteArray_ofList, String.toList_ofList, List.utf8Encode,
    List.toList_data_toByteArray]

def topGroup : Nat → Nat → Nat
  | 0, code => code
  | count + 1, code => topGroup count (code / 64)

def groups (mark : Nat) : Nat → Nat → List UInt8
  | 0, code => [.ofNat (mark + code)]
  | count + 1, code => groups mark count (code / 64) ++ [.ofNat (128 + code % 64)]

theorem ofNat_lt_ofNat {byte other : Nat} (below : byte < other) (fits : other < 256) :
    UInt8.ofNat byte < UInt8.ofNat other := by
  rwa [UInt8.lt_iff_toNat_lt, UInt8.toNat_ofNat_of_lt' (Nat.lt_trans below fits),
    UInt8.toNat_ofNat_of_lt' fits]

theorem groups_eq_cons (mark count code : Nat) :
    ∃ later, groups mark count code = .ofNat (mark + topGroup count code) :: later := by
  induction count generalizing code with
  | zero => exact ⟨[], rfl⟩
  | succ count ih =>
      obtain ⟨later, same⟩ := ih (code / 64)
      exact ⟨later ++ [.ofNat (128 + code % 64)], by rw [groups, same]; rfl⟩

theorem groups_append_lt {mark count code other : Nat} (below : code < other)
    (fits : mark + topGroup count other < 256) (rest others : List UInt8) :
    groups mark count code ++ rest < groups mark count other ++ others := by
  -- The groups above the last one decide, and the last one does where they are the same.
  induction count generalizing code other rest others with
  | zero =>
      exact List.cons_lt_cons_iff.mpr (.inl (ofNat_lt_ofNat (Nat.add_lt_add_left below mark) fits))
  | succ count ih =>
      rw [groups, groups, List.append_assoc, List.append_assoc]
      by_cases same : code / 64 = other / 64
      · have last : UInt8.ofNat (128 + code % 64) < UInt8.ofNat (128 + other % 64) :=
          ofNat_lt_ofNat (by omega) (by omega)
        rw [same]
        exact List.append_left_lt (List.cons_lt_cons_iff.mpr (.inl last))
      · exact ih (by omega) fits _ _

theorem groups_append_lt_of_top {mark count code mark' count' other : Nat}
    (below : mark + topGroup count code < mark' + topGroup count' other)
    (fits : mark' + topGroup count' other < 256) (rest others : List UInt8) :
    groups mark count code ++ rest < groups mark' count' other ++ others := by
  obtain ⟨later, first⟩ := groups_eq_cons mark count code
  obtain ⟨later', first'⟩ := groups_eq_cons mark' count' other
  rw [first, first']
  exact List.cons_lt_cons_iff.mpr (.inl (ofNat_lt_ofNat below fits))

inductive Encoded : Nat → Nat → Nat → Prop
  | one {code : Nat} (most : code < 128) : Encoded 0 0 code
  | two {code : Nat} (least : 128 ≤ code) (most : code < 2048) : Encoded 192 1 code
  | three {code : Nat} (least : 2048 ≤ code) (most : code < 65536) : Encoded 224 2 code
  | four {code : Nat} (least : 65536 ≤ code) (most : code < 1114112) : Encoded 240 3 code

theorem toNat_lt (char : Char) : char.toNat < 1114112 := by
  have valid : char.toNat < 55296 ∨ 57343 < char.toNat ∧ char.toNat < 1114112 := char.valid
  omega

theorem exists_encoded (char : Char) :
    ∃ mark count, Encoded mark count char.toNat ∧
      String.utf8EncodeChar char = groups mark count char.toNat := by
  have bound := toNat_lt char
  unfold String.utf8EncodeChar Char.toNat at *
  generalize char.val.toNat = code at *
  dsimp only
  split
  next small =>
    refine ⟨0, 0, .one (by omega), ?_⟩
    rw [groups, Nat.zero_add]
  next notSmall =>
    split
    next two =>
      have top : code / 64 % 32 + 192 = 192 + code / 64 := by omega
      refine ⟨192, 1, .two (by omega) (by omega), ?_⟩
      rw [top, Nat.add_comm (code % 64)]
      rfl
    next notTwo =>
      split
      next three =>
        have top : code / 4096 % 16 + 224 = 224 + code / 64 / 64 := by omega
        refine ⟨224, 2, .three (by omega) (by omega), ?_⟩
        rw [top, Nat.add_comm (code / 64 % 64), Nat.add_comm (code % 64)]
        rfl
      next notThree =>
        have top : code / 262144 % 8 + 240 = 240 + code / 64 / 64 / 64 := by omega
        have second : code / 4096 % 64 + 128 = 128 + code / 64 / 64 % 64 := by omega
        refine ⟨240, 3, .four (by omega) bound, ?_⟩
        rw [top, second, Nat.add_comm (code / 64 % 64), Nat.add_comm (code % 64)]
        rfl

theorem Encoded.top_lt {mark count code : Nat} (encoded : Encoded mark count code) :
    mark + topGroup count code < 256 := by
  cases encoded <;> simp only [topGroup] <;> omega

theorem Encoded.same_or_top_lt {mark count code mark' count' other : Nat}
    (encoded : Encoded mark count code) (encoded' : Encoded mark' count' other)
    (below : code < other) :
    (mark = mark' ∧ count = count') ∨
      mark + topGroup count code < mark' + topGroup count' other := by
  cases encoded <;> cases encoded' <;> simp [topGroup] <;> omega

theorem utf8EncodeChar_append_lt {char other : Char} (below : char < other)
    (rest others : List UInt8) :
    String.utf8EncodeChar char ++ rest < String.utf8EncodeChar other ++ others := by
  obtain ⟨mark, count, encoded, bytes⟩ := exists_encoded char
  obtain ⟨mark', count', encoded', bytes'⟩ := exists_encoded other
  rw [bytes, bytes']
  rcases encoded.same_or_top_lt encoded' below with ⟨rfl, rfl⟩ | top
  · exact groups_append_lt below encoded'.top_lt rest others
  · exact groups_append_lt_of_top top encoded'.top_lt rest others

theorem flatMap_utf8EncodeChar_lt {chars others : List Char} (below : chars < others) :
    chars.flatMap String.utf8EncodeChar < others.flatMap String.utf8EncodeChar := by
  induction chars generalizing others with
  | nil =>
      cases others with
      | nil => exact absurd below (List.lt_irrefl [])
      | cons other others =>
          obtain ⟨first, later, bytes⟩ := List.exists_cons_of_ne_nil
            (String.utf8EncodeChar_ne_nil (c := other))
          rw [List.flatMap_nil, List.flatMap_cons, bytes, List.cons_append]
          exact List.nil_lt_cons first _
  | cons char chars ih =>
      cases others with
      | nil => exact absurd below (List.not_lt_nil _)
      | cons other others =>
          rw [List.flatMap_cons, List.flatMap_cons]
          rcases List.cons_lt_cons_iff.mp below with first | ⟨rfl, later⟩
          · exact utf8EncodeChar_append_lt first _ _
          · exact List.append_left_lt (ih later)

/-- Texts are in the order of their bytes. -/
theorem bytes_lt_bytes {text other : String} (below : text < other) : bytes text < bytes other := by
  rw [bytes_eq_flatMap, bytes_eq_flatMap]
  exact flatMap_utf8EncodeChar_lt (String.lt_iff.mp below)

end Rulebook.Text
