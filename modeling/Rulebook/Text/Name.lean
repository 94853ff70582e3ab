/-!
Names of the items of a small fixed set: the text that names an item, and the item that a text
names.
-/

namespace Rulebook.Text

def named? {α : Type} (name : α → String) (items : List α) (text : String) : Option α :=
  items.find? fun item => name item == text

theorem named?_eq_some_iff {α : Type} {name : α → String} {items : List α} {text : String}
    {item : α} (distinct : ∀ item other, name item = name other → item = other)
    (complete : ∀ item, item ∈ items) :
    named? name items text = some item ↔ name item = text := by
  constructor
  · intro found
    simpa using List.find?_some found
  · rintro rfl
    cases found : named? name items (name item) with
    | none => exact absurd (List.find?_eq_none.mp found item (complete item)) (by simp)
    | some other =>
        have same := List.find?_some found
        rw [distinct other item (by simpa using same)]

end Rulebook.Text
