import Rulebook.Proofs.Record
import Rulebook.Report

/-!
Reports as JSON: a report of finite records is read back from its text, with the number, the kind and
the value of every outcome, if each floating-point number in it is. No other report is read back.
-/

namespace Rulebook

open Number

namespace RuleId

theorem ofChar_char (digit : Digit) : Json.Piece.ofChar digit.char = .plain digit.char := by
  revert digit
  decide

theorem digits?_plain (digits : List Digit) :
    digits? ((digits.map Digit.char).map .plain) = some digits := by
  rw [List.map_map]
  apply Collection.mapM_map
  simp

theorem ofName?_text (id : RuleId) : ofName? (Json.Quoted.ofText id.text) = some id := by
  obtain ⟨digit, digits, written, value, -⟩ := Digit.exists_chars id.toNat
  have plain : Json.Quoted.ofText id.text = (Digit.chars id.toNat).map .plain := by
    rw [Json.Quoted.ofText, text, String.toList_ofList, written, List.map_map, List.map_map]
    exact List.map_congr_left fun digit _ => ofChar_char digit
  have read := digits?_plain (digit :: digits)
  rw [← written, ← plain] at read
  have below : id.toNat < UInt64.size := id.toNat_lt_size
  rw [ofName?, read]
  simp [value, plain, below]

end RuleId

namespace Outcome

theorem readable_toJson (outcome : Outcome) : outcome.toJson.Readable := by
  cases outcome with
  | decided holds => exact .bool holds
  | failed message => exact Json.readable_ofText message

theorem ofJson?_toJson (outcome : Outcome) : ofJson? outcome.toJson = some outcome := by
  cases outcome with
  | decided _ => rfl
  | failed message => simp [toJson, ofJson?, Json.ofText]

end Outcome

namespace Entry

theorem toJson_eq (entry : Entry) : entry.toJson = .object
    [(.ofText "data", entry.record.toJson),
      (.ofText "results", .object (entry.outcomes.toList.map fun binding =>
        (.ofText (RuleId.text binding.1), binding.2.toJson)))] := rfl

theorem readable_toJson (entry : Entry) : entry.toJson.Readable := by
  have outcomes := Json.readable_object_map (fun binding => RuleId.text binding.1)
    (fun binding => binding.2.readable_toJson) entry.outcomes.toList
  rw [toJson_eq]
  refine .object ?_ ?_
  · simp [Json.Lexeme.readable_quoted_ofText]
  · simp [entry.record.readable_toJson, outcomes]

theorem outcomesOfJson?_object (members : List (Json.Quoted × Json)) :
    outcomesOfJson? (.object members) =
      (members.mapM fun member => (RuleId.ofName? member.1).bind fun id =>
        (Outcome.ofJson? member.2).bind fun outcome => some (id, outcome)).bind fun outcomes =>
          some (outcomes.foldl (fun made binding => made.insert binding.1 binding.2) ∅) := rfl

theorem outcomesOfJson?_toJson (outcomes : Std.ExtTreeMap RuleId Outcome) :
    outcomesOfJson? (.object (outcomes.toList.map fun binding =>
      (.ofText (RuleId.text binding.1), binding.2.toJson))) = some outcomes := by
  rw [outcomesOfJson?_object, Collection.mapM_map, Option.bind_some, Collection.foldl_insert_toList]
  simp [RuleId.ofName?_text, Outcome.ofJson?_toJson]

theorem ofJson?_toJson_eq (readFloat : Json.FloatReader) (entry : Entry) :
    ofJson? readFloat entry.toJson =
      (Record.ofJson? readFloat entry.record.toJson).map fun record => ⟨record, entry.outcomes⟩ := by
  rw [toJson_eq]
  simp [ofJson?, Json.fields?, Json.members?, Json.Fields.find?, outcomesOfJson?_toJson,
    Option.map_eq_bind]

end Entry

namespace Report

def IsFinite (report : Report) : Prop :=
  ∀ entry ∈ report, entry.record.IsFinite

def Rereads (readFloat : Json.FloatReader) (report : Report) : Prop :=
  ∀ entry ∈ report, entry.record.Rereads readFloat

theorem readable_toJson (report : Report) : report.toJson.Readable := by
  refine .array ?_
  intro value isItem
  obtain ⟨entry, _, rfl⟩ := List.mem_map.mp isItem
  exact entry.readable_toJson

/-- A report is read back from its text if each number in it is finite and read back, and not if one
is not finite. -/
theorem parse_render_finite (readFloat : Json.FloatReader) (report : Report) :
    (report.IsFinite → report.Rereads readFloat → parse? report.render readFloat = some report) ∧
    (¬report.IsFinite → parse? report.render readFloat = none) := by
  have read : parse? report.render readFloat =
      (report.map Entry.toJson).mapM (Entry.ofJson? readFloat) := by
    rw [parse?, render, Json.parse?_render report.readable_toJson]
    rfl
  rw [read]
  constructor
  · intro finite rereads
    have each : ∀ entry ∈ report, Entry.ofJson? readFloat entry.toJson = some entry := by
      intro entry member
      rw [Entry.ofJson?_toJson_eq, Record.ofJson?_toJson (finite entry member) (rereads entry member)]
      rfl
    exact Collection.mapM_map each
  · intro infinite
    simp only [IsFinite, not_forall] at infinite
    obtain ⟨entry, member, infinite⟩ := infinite
    apply Collection.mapM_eq_none (List.mem_map.mpr ⟨entry, member, rfl⟩)
    rw [Entry.ofJson?_toJson_eq, Record.ofJson?_toJson_eq_none readFloat infinite]
    rfl

theorem parse_render_finite_mixed :
    (∃ report : Report,
      report = [⟨.ofList [("tenth", .float (.ofQuotient false 1 10)),
          ("zero", .float (.zero true)), ("odd", .integer 9007199254740993), ("word", .text "true")],
        .ofList [(18446744073709551615, .failed "no \"field\""), (1, .decided true)] compare⟩] ∧
      report.IsFinite ∧ report.Rereads Json.Numeral.toBinary64? ∧
      parse? report.render Json.Numeral.toBinary64? = some report) ∧
    (∃ report : Report, report = [⟨.ofList [("none", .float .nan)], ∅⟩] ∧
      ¬report.IsFinite ∧ parse? report.render Json.Numeral.toBinary64? = none) := by
  refine ⟨⟨_, rfl, ?_⟩, ⟨_, rfl, ?_⟩⟩
  · suffices holds : Report.IsFinite _ ∧ Report.Rereads _ _ from
      ⟨holds.1, holds.2, (parse_render_finite _ _).1 holds.1 holds.2⟩
    constructor <;> intro entry member <;> rw [List.mem_singleton.mp member]
    · apply Record.forall_get?_ofList
      simp only [List.forall_mem_cons, List.not_mem_nil, false_implies, implies_true, and_true,
        Value.IsFinite]
      decide +kernel
    · apply Record.forall_get?_ofList
      simp only [List.forall_mem_cons, List.not_mem_nil, false_implies, implies_true, and_true,
        Value.Rereads]
      exact ⟨by decide +kernel, Json.rereads_of_isShort (by decide +kernel)⟩
  · suffices infinite : ¬Report.IsFinite _ from ⟨infinite, (parse_render_finite _ _).2 infinite⟩
    intro finite
    have held := finite _ List.mem_cons_self "none" (.float .nan)
    cases held (by simp [Record.ofList])

end Report

end Rulebook
