import Rulebook.Json.Fields
import Rulebook.Json.Parser
import Rulebook.Proofs.Collection
import Rulebook.Proofs.Json.Lexeme

/-!
The text of a JSON value is read back as that value, provided its strings and numbers can be told
from their characters.
-/

namespace Rulebook.Json

/-- Whether the strings and numbers in a value can be told from their characters. -/
inductive Readable : Json → Prop
  | null : Readable .null
  | bool (value : Bool) : Readable (.bool value)
  | number {numeral : Numeral} : (Lexeme.number numeral).Readable → Readable (.number numeral)
  | string {written : Quoted} : (Lexeme.quoted written).Readable → Readable (.string written)
  | array {items : List Json} : (∀ item ∈ items, Readable item) → Readable (.array items)
  | object {members : List (Quoted × Json)} :
      (∀ member ∈ members, (Lexeme.quoted member.1).Readable) →
      (∀ member ∈ members, Readable member.2) → Readable (.object members)

theorem readable_ofText (text : String) : (ofText text).Readable :=
  .string (Lexeme.readable_quoted_ofText text)

theorem readable_object_map {α : Type} (name : α → String) {value : α → Json}
    (each : ∀ item, (value item).Readable) (items : List α) :
    (object (items.map fun item => (.ofText (name item), value item))).Readable := by
  refine .object ?_ ?_
  · intro member isMember
    obtain ⟨item, -, rfl⟩ := List.mem_map.mp isMember
    exact Lexeme.readable_quoted_ofText (name item)
  · intro member isMember
    obtain ⟨item, -, rfl⟩ := List.mem_map.mp isMember
    exact each item

theorem members?_ofText (fields : List (String × Json)) :
    members? (fields.map fun field => (.ofText field.1, field.2)) = some fields := by
  apply Collection.mapM_map
  simp

namespace Lexeme

def Follows (lexemes : List Lexeme) : Prop :=
  Apart lexemes ∧ ∀ next ∈ lexemes.head?, ¬next.isWord

theorem Follows.cons {lexeme : Lexeme} {rest : List Lexeme} (noWord : ¬lexeme.isWord)
    (readable : lexeme.Readable) (apart : Apart rest) : Follows (lexeme :: rest) := by
  refine ⟨⟨readable, fun word => absurd word noWord, apart⟩, ?_⟩
  rintro next ⟨⟩
  exact noWord

theorem Follows.apart_cons {lexeme : Lexeme} {rest : List Lexeme} (readable : lexeme.Readable)
    (follows : Follows rest) : Apart (lexeme :: rest) :=
  ⟨readable, fun _ => follows.2, follows.1⟩

end Lexeme

open Lexeme

/-! The lexemes of a value can be told apart. -/

theorem follows_laterItemLexemes {items : List Json} {rest : List Lexeme}
    (apart : ∀ item ∈ items, ∀ {rest}, Follows rest → Apart (item.lexemes rest))
    (follows : Follows rest) : Follows (laterItemLexemes items rest) := by
  induction items with
  | nil => exact follows
  | cons item items ih =>
      rw [List.forall_mem_cons] at apart
      exact Follows.cons (by decide) trivial (apart.1 (ih apart.2))

theorem apart_memberLexeme {member : Quoted × Json} {rest : List Lexeme}
    (name : (Lexeme.quoted member.1).Readable) (apart : Apart (member.2.lexemes rest)) :
    Apart (memberLexeme member rest) := by
  obtain ⟨written, value⟩ := member
  have colon : Follows (.colon :: value.lexemes rest) :=
    Follows.cons (by decide) trivial apart
  exact colon.apart_cons name

theorem follows_laterMemberLexemes {members : List (Quoted × Json)} {rest : List Lexeme}
    (names : ∀ member ∈ members, (Lexeme.quoted member.1).Readable)
    (apart : ∀ member ∈ members, ∀ {rest}, Follows rest → Apart (member.2.lexemes rest))
    (follows : Follows rest) : Follows (laterMemberLexemes members rest) := by
  induction members with
  | nil => exact follows
  | cons member members ih =>
      rw [List.forall_mem_cons] at apart names
      exact Follows.cons (by decide) trivial
        (apart_memberLexeme names.1 (apart.1 (ih names.2 apart.2)))

theorem Readable.apart_lexemes {value : Json} (readable : value.Readable) {rest : List Lexeme}
    (follows : Follows rest) : Apart (value.lexemes rest) := by
  induction readable generalizing rest with
  | null => exact follows.apart_cons trivial
  | bool _ => exact follows.apart_cons trivial
  | number written => exact follows.apart_cons written
  | string written => exact follows.apart_cons written
  | @array items _ ih =>
      have closed : Follows (.closeBracket :: rest) :=
        Follows.cons (by decide) trivial follows.1
      cases items with
      | nil => exact closed.apart_cons trivial
      | cons item items =>
          rw [List.forall_mem_cons] at ih
          refine ⟨trivial, fun word => absurd word (by decide), ?_⟩
          exact ih.1 (follows_laterItemLexemes ih.2 closed)
  | @object members names _ ih =>
      have closed : Follows (.closeBrace :: rest) :=
        Follows.cons (by decide) trivial follows.1
      cases members with
      | nil => exact closed.apart_cons trivial
      | cons member members =>
          rw [List.forall_mem_cons] at ih names
          refine ⟨trivial, fun word => absurd word (by decide), ?_⟩
          exact apart_memberLexeme names.1
            (ih.1 (follows_laterMemberLexemes names.2 ih.2 closed))

/-! A value is read from its lexemes. -/

theorem foldlM_firstItem (value : Json) (stack : List Frame) (rest : List Lexeme) :
    (value.lexemes rest).foldlM Expected.next? (.firstItem stack) =
      (value.lexemes rest).foldlM Expected.next? (.value (.array [] :: stack)) := by
  cases value <;> rfl

theorem foldlM_firstName (member : Quoted × Json) (stack : List Frame) (rest : List Lexeme) :
    (memberLexeme member rest).foldlM Expected.next? (.firstName stack) =
      (memberLexeme member rest).foldlM Expected.next? (.name [] stack) := by
  obtain ⟨written, value⟩ := member
  rfl

theorem foldlM_laterItemLexemes {items : List Json}
    (each : ∀ item ∈ items, ∀ stack rest,
      (item.lexemes rest).foldlM Expected.next? (.value stack) =
        rest.foldlM Expected.next? (.after item stack))
    (done : List Json) (stack : List Frame) (rest : List Lexeme) :
    (laterItemLexemes items (.closeBracket :: rest)).foldlM Expected.next?
        (.afterItem done stack) =
      rest.foldlM Expected.next? (.after (.array (done.reverse ++ items)) stack) := by
  induction items generalizing done with
  | nil => simp [laterItemLexemes, Expected.next?]
  | cons item items ih =>
      rw [List.forall_mem_cons] at each
      rw [laterItemLexemes, List.foldlM_cons]
      simp only [Expected.next?, Option.bind_eq_bind, Option.bind_some]
      rw [each.1, Expected.after, ih each.2]
      simp

theorem foldlM_memberLexeme {member : Quoted × Json}
    (each : ∀ stack rest, (member.2.lexemes rest).foldlM Expected.next? (.value stack) =
      rest.foldlM Expected.next? (.after member.2 stack))
    (done : List (Quoted × Json)) (stack : List Frame) (rest : List Lexeme) :
    (memberLexeme member rest).foldlM Expected.next? (.name done stack) =
      rest.foldlM Expected.next? (.afterMember (member :: done) stack) := by
  rw [memberLexeme, List.foldlM_cons]
  simp only [Expected.next?, Option.bind_eq_bind, Option.bind_some, List.foldlM_cons]
  rw [each, Expected.after]

theorem foldlM_laterMemberLexemes {members : List (Quoted × Json)}
    (each : ∀ member ∈ members, ∀ stack rest,
      (member.2.lexemes rest).foldlM Expected.next? (.value stack) =
        rest.foldlM Expected.next? (.after member.2 stack))
    (done : List (Quoted × Json)) (stack : List Frame) (rest : List Lexeme) :
    (laterMemberLexemes members (.closeBrace :: rest)).foldlM Expected.next?
        (.afterMember done stack) =
      rest.foldlM Expected.next? (.after (.object (done.reverse ++ members)) stack) := by
  induction members generalizing done with
  | nil => simp [laterMemberLexemes, Expected.next?]
  | cons member members ih =>
      rw [List.forall_mem_cons] at each
      rw [laterMemberLexemes, List.foldlM_cons]
      simp only [Expected.next?, Option.bind_eq_bind, Option.bind_some]
      rw [foldlM_memberLexeme each.1, ih each.2]
      simp

theorem Readable.foldlM_lexemes {value : Json} (readable : value.Readable) (stack : List Frame)
    (rest : List Lexeme) :
    (value.lexemes rest).foldlM Expected.next? (.value stack) =
      rest.foldlM Expected.next? (.after value stack) := by
  induction readable generalizing stack rest with
  | null | bool _ | number _ | string _ => rfl
  | @array items _ ih =>
      rw [lexemes, List.foldlM_cons]
      simp only [Expected.next?, Expected.startValue?, Option.bind_eq_bind, Option.bind_some]
      cases items with
      | nil => simp [itemLexemes, Expected.next?]
      | cons item items =>
          rw [List.forall_mem_cons] at ih
          rw [itemLexemes, foldlM_firstItem, ih.1, Expected.after, foldlM_laterItemLexemes ih.2]
          rfl
  | @object members names _ ih =>
      rw [lexemes, List.foldlM_cons]
      simp only [Expected.next?, Expected.startValue?, Option.bind_eq_bind, Option.bind_some]
      cases members with
      | nil => simp [memberLexemes, Expected.next?]
      | cons member members =>
          rw [List.forall_mem_cons] at ih
          rw [memberLexemes, foldlM_firstName, foldlM_memberLexeme ih.1, foldlM_laterMemberLexemes ih.2]
          rfl

/-- A readable value is read back from its text. -/
theorem parse?_render {value : Json} (readable : value.Readable) :
    parse? value.render = some value := by
  have apart : Apart (value.lexemes []) := readable.apart_lexemes ⟨trivial, by simp⟩
  rw [parse?, render, String.toList_ofList, split?_flatMap_chars apart, Option.bind_some,
    ofLexemes?, readable.foldlM_lexemes]
  rfl

end Rulebook.Json
