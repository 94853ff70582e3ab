import Mathlib.Data.List.Nodup
import Std.Data.ExtTreeMap

/-!
Lists and maps that are written item by item and read item by item again.
-/

namespace Rulebook.Collection

variable {α β : Type}

theorem mapM_map {write : α → β} {read? : β → Option α} {items : List α}
    (each : ∀ item ∈ items, read? (write item) = some item) :
    (items.map write).mapM read? = some items := by
  induction items with
  | nil => rfl
  | cons item items ih =>
      rw [List.forall_mem_cons] at each
      simp [List.mapM_cons, each.1, ih each.2]

theorem mapM_eq_none {read? : α → Option β} {items : List α} {item : α} (member : item ∈ items)
    (unread : read? item = none) : items.mapM read? = none := by
  induction items with
  | nil => cases member
  | cons first items ih =>
      rw [List.mapM_cons]
      rcases List.mem_cons.mp member with rfl | later
      · simp [unread]
      · cases read? first <;> simp [ih later]

variable [DecidableEq α]

theorem lookup_reverse_eq_some_iff {items : List (α × β)} (distinct : (items.map Prod.fst).Nodup)
    {key : α} {value : β} : items.reverse.lookup key = some value ↔ (key, value) ∈ items := by
  rw [List.lookup_eq_some_iff]
  constructor
  · rintro ⟨before, after, split, -⟩
    rw [← List.mem_reverse, split]
    exact List.mem_append_right before List.mem_cons_self
  · intro member
    obtain ⟨before, after, split⟩ := List.append_of_mem (List.mem_reverse.mpr member)
    refine ⟨before, after, split, ?_⟩
    intro earlier isEarlier
    rw [← List.nodup_reverse, ← List.map_reverse, split, List.map_append, List.map_cons] at distinct
    rw [bne_iff_ne]
    rintro rfl
    exact (List.nodup_middle.mp distinct).notMem
      (List.mem_append_left _ (List.mem_map.mpr ⟨earlier, isEarlier, rfl⟩))

variable [Ord α] [Std.TransOrd α] [Std.LawfulEqOrd α]

theorem getElem?_foldl_insert {γ : Type} (make : β → γ) (items : List (α × β)) (key : α) :
    (items.foldl (fun made item => made.insert item.1 (make item.2))
      (∅ : Std.ExtTreeMap α γ))[key]? = (items.reverse.lookup key).map make := by
  -- Taken from its end, the list has the item that counts before those it replaces.
  rw [List.foldl_eq_foldr_reverse]
  induction items.reverse with
  | nil => simp
  | cons item earlier ih =>
      obtain ⟨other, value⟩ := item
      rw [List.foldr_cons, Std.ExtTreeMap.getElem?_insert, List.lookup_cons]
      by_cases same : key = other
      · simp [same]
      · have differs : (key == other) = false := beq_eq_false_iff_ne.mpr same
        simp [Ne.symm same, differs, ih]

theorem foldl_insert_toList (bindings : Std.ExtTreeMap α β) :
    bindings.toList.foldl (fun made binding => made.insert binding.1 binding.2) ∅ = bindings := by
  have made : bindings.toList.foldl (fun made binding => made.insert binding.1 binding.2) ∅ =
      Std.ExtTreeMap.ofList bindings.toList compare :=
    Std.ExtTreeMap.ofList_eq_foldl.symm
  rw [made]
  apply Std.ExtTreeMap.ext_getElem?
  intro key
  cases bound : bindings[key]? with
  | some value =>
      exact Std.ExtTreeMap.getElem?_ofList_of_mem Std.ReflCmp.compare_self
        Std.ExtTreeMap.distinct_keys_toList
        (Std.ExtTreeMap.mem_toList_iff_getElem?_eq_some.mpr bound)
  | none =>
      apply Std.ExtTreeMap.getElem?_ofList_of_contains_eq_false
      rw [List.contains_eq_mem, decide_eq_false_iff_not]
      intro listed
      obtain ⟨⟨other, value⟩, member, rfl⟩ := List.mem_map.mp listed
      have unbound := Std.ExtTreeMap.mem_toList_iff_getElem?_eq_some.mp member
      cases bound.symm.trans unbound

end Rulebook.Collection
