import Rulebook.Proofs.Host.Reading
import Rulebook.Proofs.Number.Decimal
import Rulebook.Proofs.Record.Canonical

/-!
Dictionaries of the host program as what is read of them. No two keys of a dictionary are the same,
so its rules are read under different numbers, and its fields with different names.
-/

namespace Rulebook.Host

open Number

namespace Object

def DistinctKeys (items : List (Object × Object)) : Prop :=
  items.Pairwise fun item later => item.1.sameKey later.1 = false

theorem mem_setItem {key value : Object} {items : List (Object × Object)}
    {item : Object × Object} (member : item ∈ setItem key value items) :
    item.1 = key ∨ ∃ other ∈ items, other.1 = item.1 := by
  induction items with
  | nil =>
      obtain rfl := List.mem_singleton.mp member
      exact .inl rfl
  | cons first later ih =>
      rw [setItem] at member
      split at member
      all_goals
        rcases List.mem_cons.mp member with rfl | member
      · exact .inr ⟨first, List.mem_cons_self, rfl⟩
      · exact .inr ⟨item, List.mem_cons_of_mem first member, rfl⟩
      · exact .inr ⟨first, List.mem_cons_self, rfl⟩
      · refine (ih member).imp_right ?_
        rintro ⟨other, isOther, same⟩
        exact ⟨other, List.mem_cons_of_mem first isOther, same⟩

theorem DistinctKeys.setItem {items : List (Object × Object)} (distinct : DistinctKeys items)
    (key value : Object) : DistinctKeys (setItem key value items) := by
  induction items with
  | nil => exact List.pairwise_singleton _ _
  | cons first later ih =>
      obtain ⟨fromFirst, distinct⟩ := List.pairwise_cons.mp distinct
      rw [Object.setItem]
      split
      · exact .cons fromFirst distinct
      next other =>
        refine .cons ?_ (ih distinct)
        intro item member
        rcases mem_setItem member with isKey | ⟨known, isKnown, same⟩
        · rw [isKey]
          exact Bool.eq_false_iff.mpr other
        · rw [← same]
          exact fromFirst known isKnown

theorem exists_distinctKeys_ofItems (items : List (Object × Object)) :
    ∃ kept, ofItems items = .dict kept ∧ DistinctKeys kept := by
  refine ⟨_, rfl, ?_⟩
  apply List.foldlRecOn
  · exact .nil
  · intro kept distinct item _
    exact distinct.setItem item.1 item.2

variable {object other : Object} {whole whole' : Int}

theorem sameKey_of_int? (isWhole : object.int? = some whole) (isOther : other.int? = some whole') :
    object.sameKey other = (whole == whole') := by
  have units : object.sameKey other = (whole * unitsOfOne == whole' * unitsOfOne) := by
    cases object <;> cases isWhole <;> cases other <;> cases isOther <;> rfl
  have one : (unitsOfOne : Int) ≠ 0 := Int.natCast_ne_zero.mpr (Nat.ne_of_gt Binary64.unitsOfOne_pos)
  rw [units, Bool.eq_iff_iff, beq_iff_eq, beq_iff_eq, Int.mul_eq_mul_right_iff one]

def counted : Object → Object
  | .bool value => .int value.toInt
  | object => object

end Object

open Object (DistinctKeys ofValue)

/-! Records of dictionaries. -/

theorem toInt_of_integer? {whole : Int} {number : Int64} (fits : Value.integer? whole = some number) :
    number.toInt = whole := by
  rw [Value.integer?, Option.ite_none_right_eq_some] at fits
  obtain ⟨⟨least, greatest⟩, made⟩ := fits
  rw [← Option.some.inj made]
  exact Int64.toInt_ofInt_of_le least (Int.lt_of_le_sub_one greatest)

theorem ofValue_of_int? {field : String} {object : Object} {value : Value} {whole : Int}
    (isWhole : object.int? = some whole) (read : readValue field object = .ok value) :
    ofValue value = .int whole := by
  have fits : ∃ number, Value.integer? whole = some number ∧ value = .integer number := by
    cases object <;> cases isWhole
    all_goals
      simp only [readValue, Object.int?] at read
      split at read
      next number fits => exact ⟨number, fits, (Except.ok.inj read).symm⟩
      · cases read
  obtain ⟨number, fits, rfl⟩ := fits
  exact congrArg Object.int (toInt_of_integer? fits)

theorem ofValue_of_readValue {field : String} {object : Object} {value : Value}
    (read : readValue field object = .ok value) : ofValue value = object.counted := by
  cases object with
  | bool truth => exact ofValue_of_int? rfl read
  | int number => exact ofValue_of_int? rfl read
  | float number =>
      obtain rfl := Except.ok.inj read
      rfl
  | text written =>
      obtain rfl := Except.ok.inj read
      rfl
  | none => cases read
  | list items => cases read
  | tuple items => cases read
  | dict items => cases read
  | report report => cases read

def readField (item : Object × Object) : Except Failure (String × Value) := do
  let field ← item.1.readText
  return (field, ← readValue field item.2)

theorem readRecord_dict (items : List (Object × Object)) :
    readRecord (.dict items) = Record.ofList <$> items.mapM readField := by
  rfl

theorem readField_eq_ok_iff {item : Object × Object} {field : String} {value : Value} :
    readField item = .ok (field, value) ↔
      item.1 = .text field ∧ readValue field item.2 = .ok value := by
  have isText : item.1.readText = .ok field ↔ item.1 = .text field := by
    cases item.1 <;> simp [Object.readText]
  rw [← isText]
  exact Collection.pair_eq_ok_iff

theorem mem_toList_of_readRecord {items : List (Object × Object)} {record : Record}
    (distinct : DistinctKeys items) (read : readRecord (.dict items) = .ok record) {field : String}
    {value : Value} :
    (field, value) ∈ record.toList ↔
      ∃ held, (.text field, held) ∈ items ∧ readValue field held = .ok value := by
  rw [readRecord_dict] at read
  obtain ⟨values, readItems, rfl⟩ := Collection.map_eq_ok_iff.mp read
  have apart : (values.map Prod.fst).Nodup := by
    rw [List.Nodup, List.pairwise_map]
    refine Collection.pairwise_of_mapM readItems ?_ distinct
    intro item later value value' differ readItem readLater same
    rw [(readField_eq_ok_iff.mp readItem).1, (readField_eq_ok_iff.mp readLater).1, same,
      Object.sameKey_text, beq_self_eq_true] at differ
    cases differ
  rw [Record.mem_toList_iff, Record.get?_ofList, Collection.lookup_reverse_eq_some_iff apart,
    Collection.mem_iff_of_mapM readItems]
  simp only [readField_eq_ok_iff, Prod.exists]
  constructor
  · rintro ⟨_, held, member, rfl, readHeld⟩
    exact ⟨held, member, readHeld⟩
  · rintro ⟨held, member, readHeld⟩
    exact ⟨_, held, member, rfl, readHeld⟩

theorem exists_readValue {items : List (Object × Object)} {record : Record}
    (read : readRecord (.dict items) = .ok record) {field : String} {held : Object}
    (member : (.text field, held) ∈ items) : ∃ value, readValue field held = .ok value := by
  rw [readRecord_dict] at read
  obtain ⟨values, readItems, -⟩ := Collection.map_eq_ok_iff.mp read
  obtain ⟨⟨name, value⟩, -, isField⟩ := Collection.exists_value_of_mem readItems member
  obtain ⟨isText, isValue⟩ := readField_eq_ok_iff.mp isField
  cases isText
  exact ⟨value, isValue⟩

/-! Rules of dictionaries, by their numbers. -/

def Object.IsNumber (object : Object) : Prop :=
  ∃ whole, object.int? = some whole ∧ 0 ≤ whole ∧ whole < UInt64.size

theorem readId_of_int? {object : Object} {whole : Int} (isWhole : object.int? = some whole) :
    readId object =
      if 0 ≤ whole ∧ whole < UInt64.size then .ok whole.toNat.toUInt64 else .error .overflow := by
  rw [readId, isWhole]

theorem int?_of_readId {object : Object} {id : RuleId} (read : readId object = .ok id) :
    object.int? = some (id.toNat : Int) := by
  rw [readId] at read
  split at read
  · cases read
  next whole isWhole =>
    split at read
    next fits =>
      have made : whole.toNat.toUInt64.toNat = whole.toNat :=
        Nat.mod_eq_of_lt ((Int.toNat_lt fits.1).mpr fits.2)
      rw [← Except.ok.inj read, isWhole, made, Int.toNat_of_nonneg fits.1]
    · cases read

theorem exists_readId_iff {object : Object} : (∃ id, readId object = .ok id) ↔ object.IsNumber := by
  constructor
  · rintro ⟨id, read⟩
    exact ⟨id.toNat, int?_of_readId read, Int.natCast_nonneg _, Int.ofNat_lt.mpr id.toNat_lt⟩
  · rintro ⟨whole, isWhole, fits⟩
    exact ⟨_, (readId_of_int? isWhole).trans (if_pos fits)⟩

def readItem (item : Object × Object) : Except Failure (RuleId × Rule) := do
  let id ← readId item.1
  return (id, ← readRule item.2)

theorem readRules_eq (items : List (Object × Object)) : readRules items = items.mapM readItem := rfl

theorem readItem_eq_ok_iff {item : Object × Object} {id : RuleId} {rule : Rule} :
    readItem item = .ok (id, rule) ↔ readId item.1 = .ok id ∧ readRule item.2 = .ok rule :=
  Collection.pair_eq_ok_iff

theorem mem_readRules_iff {items : List (Object × Object)} {rules : List (RuleId × Rule)}
    (read : readRules items = .ok rules) {id : RuleId} {rule : Rule} :
    (id, rule) ∈ rules ↔
      ∃ item ∈ items, readId item.1 = .ok id ∧ readRule item.2 = .ok rule := by
  rw [Collection.mem_iff_of_mapM (readRules_eq items ▸ read)]
  simp only [readItem_eq_ok_iff]

theorem nodup_of_readRules {items : List (Object × Object)} {rules : List (RuleId × Rule)}
    (distinct : DistinctKeys items) (read : readRules items = .ok rules) :
    (rules.map Prod.fst).Nodup := by
  rw [List.Nodup, List.pairwise_map]
  refine Collection.pairwise_of_mapM (readRules_eq items ▸ read) ?_ distinct
  intro item later given given' differ readItem readLater same
  have isWhole := int?_of_readId (readItem_eq_ok_iff.mp readItem).1
  have isOther := int?_of_readId (readItem_eq_ok_iff.mp readLater).1
  rw [Object.sameKey_of_int? isWhole isOther, same, beq_self_eq_true] at differ
  cases differ

def Accepted (item : Object × Object) : Prop :=
  item.1.IsNumber ∧ ∃ rule, readRule item.2 = .ok rule

/-- Why an item of a dictionary is no rule under a number. -/
inductive Refused : Object × Object → Failure → Prop
  | notWhole {key value : Object} (notWhole : key.int? = none) : Refused (key, value) .conversion
  | beyond {key value : Object} {whole : Int} (isWhole : key.int? = some whole)
      (beyond : ¬(0 ≤ whole ∧ whole < UInt64.size)) : Refused (key, value) .overflow
  | notRule {key value : Object} {failure : Failure} (isNumber : key.IsNumber)
      (failed : readRule value = .error failure) : Refused (key, value) failure

theorem exists_readItem_iff {item : Object × Object} :
    (∃ given, readItem item = .ok given) ↔ Accepted item := by
  rw [Accepted, ← exists_readId_iff, Prod.exists]
  simp only [readItem_eq_ok_iff, exists_and_left, exists_and_right]

theorem refused_of_readItem {item : Object × Object} {failure : Failure}
    (failed : readItem item = .error failure) : Refused item failure := by
  obtain ⟨key, value⟩ := item
  rcases Collection.both_eq_error_iff.mp failed with failed | ⟨isNumber, failed⟩
  · change readId key = .error failure at failed
    rw [readId] at failed
    split at failed
    next notWhole =>
      cases failed
      exact .notWhole notWhole
    next isWhole =>
      split at failed
      · cases failed
      next beyond =>
        cases failed
        exact .beyond isWhole beyond
  · exact .notRule (exists_readId_iff.mp isNumber) failed

theorem exists_readRules {items : List (Object × Object)}
    (accepted : ∀ item ∈ items, Accepted item) : ∃ rules, readRules items = .ok rules := by
  apply Collection.exists_values_of_forall
  intro item member
  exact exists_readItem_iff.mpr (accepted item member)

theorem exists_refused {items : List (Object × Object)} (invalid : ∃ item ∈ items, ¬Accepted item) :
    ∃ before item after failure, items = before ++ item :: after ∧
      (∀ earlier ∈ before, Accepted earlier) ∧ Refused item failure ∧
      readRules items = .error failure := by
  obtain ⟨wrong, member, isWrong⟩ := invalid
  cases read : readRules items with
  | ok rules =>
      obtain ⟨given, -, readWrong⟩ := Collection.exists_value_of_mem (readRules_eq items ▸ read) member
      exact absurd (exists_readItem_iff.mp ⟨given, readWrong⟩) isWrong
  | error failure =>
      obtain ⟨before, item, after, split, readEarlier, failed⟩ :=
        Collection.mapM_eq_error_iff.mp (readRules_eq items ▸ read)
      refine ⟨before, item, after, failure, split, ?_, refused_of_readItem failed, rfl⟩
      exact fun earlier isEarlier => exists_readItem_iff.mp (readEarlier earlier isEarlier)

end Rulebook.Host
