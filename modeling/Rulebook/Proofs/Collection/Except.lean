import Mathlib.Data.List.Perm.Basic

/-!
Computations that may fail, one after the other and for each item of a list: what a result says of the
steps, and a failure of the first step that fails.
-/

namespace Rulebook.Collection

variable {ε α β γ : Type}

@[simp] theorem ok_bind (value : α) (next : α → Except ε β) :
    (Except.ok value >>= next) = next value := rfl

@[simp] theorem error_bind (fault : ε) (next : α → Except ε β) :
    (Except.error fault >>= next) = Except.error fault := rfl

theorem bind_eq_ok_iff {result : Except ε α} {next : α → Except ε β} {value : β} :
    (result >>= next) = .ok value ↔ ∃ middle, result = .ok middle ∧ next middle = .ok value := by
  cases result <;> simp

theorem bind_eq_error_iff {result : Except ε α} {next : α → Except ε β} {fault : ε} :
    (result >>= next) = .error fault ↔
      result = .error fault ∨ ∃ middle, result = .ok middle ∧ next middle = .error fault := by
  cases result <;> simp

theorem both_eq_ok_iff {first : Except ε α} {second : α → Except ε β} {use : α → β → γ} {made : γ} :
    (first >>= fun value => second value >>= fun other => .ok (use value other)) = .ok made ↔
      ∃ value other, first = .ok value ∧ second value = .ok other ∧ made = use value other := by
  constructor
  · intro both
    obtain ⟨value, isFirst, both⟩ := bind_eq_ok_iff.mp both
    obtain ⟨other, isSecond, both⟩ := bind_eq_ok_iff.mp both
    exact ⟨value, other, isFirst, isSecond, (Except.ok.inj both).symm⟩
  · rintro ⟨value, other, isFirst, isSecond, rfl⟩
    rw [isFirst, ok_bind, isSecond, ok_bind]

theorem pair_eq_ok_iff {first : Except ε α} {second : α → Except ε β} {value : α} {other : β} :
    (first >>= fun value => second value >>= fun other => .ok (value, other)) = .ok (value, other) ↔
      first = .ok value ∧ second value = .ok other := by
  rw [both_eq_ok_iff]
  constructor
  · rintro ⟨_, _, isFirst, isSecond, same⟩
    cases same
    exact ⟨isFirst, isSecond⟩
  · rintro ⟨isFirst, isSecond⟩
    exact ⟨value, other, isFirst, isSecond, rfl⟩

theorem both_eq_error_iff {first : Except ε α} {second : Except ε β} {use : α → β → γ} {fault : ε} :
    (first >>= fun value => second >>= fun other => .ok (use value other)) = .error fault ↔
      first = .error fault ∨ (∃ value, first = .ok value) ∧ second = .error fault := by
  rw [bind_eq_error_iff]
  refine or_congr_right ?_
  constructor
  · rintro ⟨value, made, failed⟩
    rcases bind_eq_error_iff.mp failed with failed | ⟨other, -, done⟩
    · exact ⟨⟨value, made⟩, failed⟩
    · cases done
  · rintro ⟨⟨value, made⟩, failed⟩
    exact ⟨value, made, bind_eq_error_iff.mpr (.inl failed)⟩

theorem exists_ok_iff {result : Except ε α} :
    (∃ value, result = .ok value) ↔ ∀ fault, result ≠ .error fault := by
  cases result <;> simp

theorem map_eq_ok_iff {result : Except ε α} {use : α → β} {value : β} :
    result.map use = .ok value ↔ ∃ given, result = .ok given ∧ use given = value := by
  cases result with
  | ok given =>
      constructor
      · intro used
        exact ⟨given, rfl, Except.ok.inj used⟩
      · rintro ⟨other, same, rfl⟩
        rw [Except.ok.inj same]
        rfl
  | error fault =>
      constructor
      · intro used
        cases used
      · rintro ⟨other, same, -⟩
        cases same

theorem map_eq_error_iff {result : Except ε α} {use : α → β} {fault : ε} :
    result.map use = .error fault ↔ result = .error fault := by
  cases result with
  | ok value =>
      constructor
      · intro used
        cases used
      · intro failed
        cases failed
  | error other =>
      constructor
      · intro failed
        exact congrArg Except.error (Except.error.inj failed)
      · intro failed
        exact congrArg Except.error (Except.error.inj failed)

theorem mapM_cons_eq_ok_iff {read : α → Except ε β} {item : α} {items : List α}
    {values : List β} :
    (item :: items).mapM read = .ok values ↔
      ∃ value rest, read item = .ok value ∧ items.mapM read = .ok rest ∧ values = value :: rest := by
  rw [List.mapM_cons]
  exact both_eq_ok_iff

theorem mapM_eq_ok_iff_forall₂ {read : α → Except ε β} {items : List α} {values : List β} :
    items.mapM read = .ok values ↔
      List.Forall₂ (fun item value => read item = .ok value) items values := by
  induction items generalizing values with
  | nil =>
      rw [List.forall₂_nil_left_iff]
      constructor
      · intro all
        exact (Except.ok.inj all).symm
      · rintro rfl
        rfl
  | cons item items ih => simp only [mapM_cons_eq_ok_iff, List.forall₂_cons_left_iff, ih]

theorem exists_perm_of_mapM {read : α → Except ε β} {items others : List α} {values : List β}
    (all : items.mapM read = .ok values) (reordered : others.Perm items) :
    ∃ otherValues, others.mapM read = .ok otherValues ∧ otherValues.Perm values := by
  obtain ⟨otherValues, each, perm⟩ :=
    List.perm_comp_forall₂ reordered (mapM_eq_ok_iff_forall₂.mp all)
  exact ⟨otherValues, mapM_eq_ok_iff_forall₂.mpr each, perm⟩

theorem mapM_append_eq_ok_iff {read : α → Except ε β} {before items : List α} {values : List β} :
    (before ++ items).mapM read = .ok values ↔
      ∃ first rest, before.mapM read = .ok first ∧ items.mapM read = .ok rest ∧
        values = first ++ rest := by
  rw [List.mapM_append]
  exact both_eq_ok_iff

theorem mapM_eq_ok_map {read : α → Except ε β} {items : List α} {value : α → β}
    (each : ∀ item ∈ items, read item = .ok (value item)) :
    items.mapM read = .ok (items.map value) := by
  induction items with
  | nil => rfl
  | cons item items ih =>
      rw [List.forall_mem_cons] at each
      exact mapM_cons_eq_ok_iff.mpr ⟨value item, _, each.1, ih each.2, rfl⟩

theorem mapM_replicate {read : α → Except ε β} {item : α} {value : β}
    (readItem : read item = .ok value) (count : Nat) :
    (List.replicate count item).mapM read = .ok (List.replicate count value) := by
  have each : ∀ copy ∈ List.replicate count item, read copy = .ok value := by
    intro copy member
    rw [List.eq_of_mem_replicate member, readItem]
  have all := mapM_eq_ok_map each
  rwa [List.map_replicate] at all

theorem exists_values_of_forall {read : α → Except ε β} {items : List α}
    (each : ∀ item ∈ items, ∃ value, read item = .ok value) :
    ∃ values, items.mapM read = .ok values := by
  induction items with
  | nil => exact ⟨[], rfl⟩
  | cons item items ih =>
      rw [List.forall_mem_cons] at each
      obtain ⟨value, readItem⟩ := each.1
      obtain ⟨values, readItems⟩ := ih each.2
      exact ⟨value :: values, mapM_cons_eq_ok_iff.mpr ⟨value, values, readItem, readItems, rfl⟩⟩

theorem length_of_mapM {read : α → Except ε β} {items : List α} {values : List β}
    (all : items.mapM read = .ok values) : values.length = items.length :=
  (mapM_eq_ok_iff_forall₂.mp all).length_eq.symm

theorem exists_item_of_mem {read : α → Except ε β} {items : List α} {values : List β}
    (all : items.mapM read = .ok values) {value : β} (member : value ∈ values) :
    ∃ item ∈ items, read item = .ok value := by
  induction items generalizing values with
  | nil =>
      obtain rfl := Except.ok.inj all
      cases member
  | cons item items ih =>
      obtain ⟨first, rest, readItem, readItems, rfl⟩ := mapM_cons_eq_ok_iff.mp all
      rcases List.mem_cons.mp member with rfl | later
      · exact ⟨item, List.mem_cons_self, readItem⟩
      · obtain ⟨found, isItem, readFound⟩ := ih readItems later
        exact ⟨found, List.mem_cons_of_mem item isItem, readFound⟩

theorem exists_value_of_mem {read : α → Except ε β} {items : List α} {values : List β}
    (all : items.mapM read = .ok values) {item : α} (member : item ∈ items) :
    ∃ value ∈ values, read item = .ok value := by
  induction items generalizing values with
  | nil => cases member
  | cons head items ih =>
      obtain ⟨first, rest, readItem, readItems, rfl⟩ := mapM_cons_eq_ok_iff.mp all
      rcases List.mem_cons.mp member with rfl | later
      · exact ⟨first, List.mem_cons_self, readItem⟩
      · obtain ⟨value, isValue, readLater⟩ := ih readItems later
        exact ⟨value, List.mem_cons_of_mem first isValue, readLater⟩

theorem mem_iff_of_mapM {read : α → Except ε β} {items : List α} {values : List β}
    (all : items.mapM read = .ok values) {value : β} :
    value ∈ values ↔ ∃ item ∈ items, read item = .ok value := by
  constructor
  · exact exists_item_of_mem all
  · rintro ⟨item, member, readItem⟩
    obtain ⟨other, isValue, readOther⟩ := exists_value_of_mem all member
    rwa [Except.ok.inj (readItem.symm.trans readOther)]

theorem pairwise_of_mapM {read : α → Except ε β} {items : List α} {values : List β}
    {apart : α → α → Prop} {apart' : β → β → Prop} (all : items.mapM read = .ok values)
    (kept : ∀ item later value value', apart item later → read item = .ok value →
      read later = .ok value' → apart' value value')
    (pairwise : items.Pairwise apart) : values.Pairwise apart' := by
  induction items generalizing values with
  | nil =>
      obtain rfl := Except.ok.inj all
      exact .nil
  | cons item items ih =>
      obtain ⟨value, rest, readItem, readItems, rfl⟩ := mapM_cons_eq_ok_iff.mp all
      obtain ⟨fromItem, later⟩ := List.pairwise_cons.mp pairwise
      refine .cons ?_ (ih readItems later)
      intro value' member
      obtain ⟨other, isItem, readOther⟩ := exists_item_of_mem readItems member
      exact kept item other value value' (fromItem other isItem) readItem readOther

theorem mapM_cons_eq_error_iff {read : α → Except ε β} {item : α} {items : List α} {fault : ε} :
    (item :: items).mapM read = .error fault ↔
      read item = .error fault ∨
        (∃ value, read item = .ok value) ∧ items.mapM read = .error fault := by
  rw [List.mapM_cons]
  exact both_eq_error_iff

theorem mapM_append_eq_error_iff {read : α → Except ε β} {before items : List α} {fault : ε} :
    (before ++ items).mapM read = .error fault ↔
      before.mapM read = .error fault ∨
        (∃ values, before.mapM read = .ok values) ∧ items.mapM read = .error fault := by
  rw [List.mapM_append]
  exact both_eq_error_iff

theorem mapM_singleton_eq_error_iff {read : α → Except ε β} {item : α} {fault : ε} :
    [item].mapM read = .error fault ↔ read item = .error fault := by
  rw [mapM_cons_eq_error_iff]
  refine or_iff_left ?_
  rintro ⟨-, failed⟩
  cases failed

theorem mapM_eq_error_iff {read : α → Except ε β} {items : List α} {fault : ε} :
    items.mapM read = .error fault ↔
      ∃ before item after, items = before ++ item :: after ∧
        (∀ earlier ∈ before, ∃ value, read earlier = .ok value) ∧ read item = .error fault := by
  induction items with
  | nil =>
      constructor
      · intro failed
        cases failed
      · rintro ⟨before, item, after, split, -⟩
        simp at split
  | cons head items ih =>
      rw [mapM_cons_eq_error_iff, ih]
      constructor
      · rintro (failed | ⟨readHead, before, item, after, rfl, each, failed⟩)
        · exact ⟨[], head, items, rfl, by simp, failed⟩
        · exact ⟨head :: before, item, after, rfl, List.forall_mem_cons.mpr ⟨readHead, each⟩, failed⟩
      · rintro ⟨before, item, after, split, each, failed⟩
        cases before with
        | nil =>
            obtain ⟨rfl, -⟩ := List.cons.inj split
            exact .inl failed
        | cons first before =>
            obtain ⟨rfl, rfl⟩ := List.cons.inj split
            obtain ⟨readHead, each⟩ := List.forall_mem_cons.mp each
            exact .inr ⟨readHead, before, item, after, rfl, each, failed⟩

theorem mapM_bind_of_mapM {read : α → Except ε β} {items : List α} {values : List β}
    (all : items.mapM read = .ok values) (next : β → Except ε γ) :
    (items.mapM fun item => read item >>= next) = values.mapM next := by
  induction items generalizing values with
  | nil =>
      obtain rfl := Except.ok.inj all
      rfl
  | cons item items ih =>
      obtain ⟨first, rest, readItem, readItems, rfl⟩ := mapM_cons_eq_ok_iff.mp all
      rw [List.mapM_cons, List.mapM_cons, ih readItems, readItem, ok_bind]

end Rulebook.Collection
