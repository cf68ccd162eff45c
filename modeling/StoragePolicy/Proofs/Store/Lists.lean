import StoragePolicy.Proofs.Store.View

/-!
# Lists in the store

A list and its absence are told apart nowhere: `listAt` answers with no items for a key that does
not exist, and putting a list without items takes the key away. So every change to a list puts a
list, be it one without items, and of two lists put under one key the second counts.

## Theorems

* `get?_putList`, `listAt_putList`, `contains_putList`: What putting a list does.
* `mutate_append`, `mutate_removeItem`, `mutate_delete`: Changes to a list put one.
-/

namespace StoragePolicy

namespace Store

/-- What stands where after a list has been put: the list, if it has items, and else nothing. -/
theorem get?_putList (s : Store) (key other : String) (items : List String) :
    (s.putList key items).get? other =
      if other = key then (if items.isEmpty then none else some (.list items))
      else s.get? other := by
  rw [putList]
  by_cases he : items.isEmpty = true
  · by_cases ho : other = key <;> simp [he, ho]
  · by_cases ho : other = key <;> simp [he, ho]

/-- A list that is put is found, whatever its items are. -/
theorem listAt_putList (s : Store) (key : String) (items : List String) :
    (s.putList key items).listAt key = .ok items := by
  rw [listAt, get?_putList, if_pos rfl]
  cases items <;> rfl

theorem contains_putList (s : Store) (key : String) (items : List String) :
    Dict.contains (s.putList key items) key = !items.isEmpty := by
  rw [Dict.contains, get?_putList, if_pos rfl]
  cases items <;> rfl

/-- Of two lists put under one key the second counts. -/
theorem putList_putList (s : Store) (key : String) (first second : List String) :
    (s.putList key first).putList key second = s.putList key second := by
  refine Dict.ext_get? _ _ fun other => ?_
  rw [get?_putList, get?_putList, get?_putList]
  by_cases ho : other = key <;> simp [ho]

theorem putList_nil_of_get? (s : Store) (key : String) (h : s.get? key = none) :
    s.putList key [] = s := Dict.erase_of_get?_eq_none s key h

theorem mutate_delete (s : Store) (key : String) :
    s.mutate (.delete key) = .ok (s.putList key []) := rfl

theorem mutate_append (s : Store) (key : String) (items more : List String) (hmore : more ≠ [])
    (h : s.listAt key = .ok items) :
    s.mutate (.append key more) = .ok (s.putList key (items ++ more)) := by
  have hempty : ¬ more.isEmpty = true := fun he => hmore (List.isEmpty_iff.mp he)
  rw [mutate, if_neg hempty, h]
  rfl

theorem mutate_removeItem (s : Store) (key value : String) (items : List String)
    (h : s.listAt key = .ok items) :
    s.mutate (.removeItem key value) = .ok (s.putList key (items.erase value)) := by
  rw [mutate, h]
  rfl

end Store

end StoragePolicy
