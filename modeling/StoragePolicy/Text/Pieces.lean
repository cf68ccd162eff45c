/-!
# Cutting lists into pieces

Every reader of this library works by cutting a list (of characters, of words, of tokens) at
elements of some class. The cuts are stated once here, for any element type, so that one lemma per
cut serves all readers.

## Main definitions

* `splitWhere`: The pieces between the separators; `n` separators give `n + 1` pieces.
* `cutFirst`, `cutLast`: The two sides of the first or the last separator.
* `runs`: The maximal runs of elements of one class.

## Theorems

* `splitWhere_ne_nil`: There is always at least one piece.
* `cutFirst_eq_none_iff`: A cut fails exactly on a list without separator.
* `flatten_runs`: The runs put together are the list.
-/

namespace StoragePolicy

namespace Text

variable {α : Type}

/-- The pieces of a list between the elements that satisfy `p`; the separators are dropped. -/
def splitWhere (p : α → Bool) : List α → List (List α)
  | [] => [[]]
  | a :: rest =>
    if p a then [] :: splitWhere p rest
    else
      match splitWhere p rest with
      | [] => [[a]]
      | piece :: pieces => (a :: piece) :: pieces

/-- What stands before and after the first element that satisfies `p`. -/
def cutFirst (p : α → Bool) : List α → Option (List α × List α)
  | [] => none
  | a :: rest =>
    if p a then some ([], rest)
    else (cutFirst p rest).map fun sides => (a :: sides.1, sides.2)

/-- What stands before and after the last element that satisfies `p`. -/
def cutLast (p : α → Bool) : List α → Option (List α × List α)
  | [] => none
  | a :: rest =>
    match cutLast p rest with
    | some sides => some (a :: sides.1, sides.2)
    | none => if p a then some ([], rest) else none

/-- Removes the final element where it satisfies `p`, as long as there is one. -/
def dropEndWhile (p : α → Bool) (items : List α) : List α :=
  (items.reverse.dropWhile p).reverse

/-- Removes one occurrence of `tail` from the end of the list, or gives nothing if it does not
    end so. -/
def dropTail? [DecidableEq α] (tail items : List α) : Option (List α) :=
  if tail.isSuffixOf items then some (items.take (items.length - tail.length)) else none

/-- The maximal runs of elements of one class, each with its class. -/
def runs {κ : Type} [DecidableEq κ] (kind : α → κ) : List α → List (κ × List α)
  | [] => []
  | a :: rest =>
    match runs kind rest with
    | [] => [(kind a, [a])]
    | (k, run) :: others =>
      if kind a = k then (k, a :: run) :: others else (kind a, [a]) :: (k, run) :: others

/-- There is always at least one piece. -/
theorem splitWhere_ne_nil (p : α → Bool) (items : List α) : splitWhere p items ≠ [] := by
  cases items with
  | nil => exact List.cons_ne_nil _ _
  | cons a rest =>
    rw [splitWhere]
    split
    · exact List.cons_ne_nil _ _
    · split <;> exact List.cons_ne_nil _ _

/-- A cut fails exactly on a list without separator. -/
theorem cutFirst_eq_none_iff (p : α → Bool) (items : List α) :
    cutFirst p items = none ↔ ∀ a ∈ items, p a = false := by
  induction items with
  | nil => simp [cutFirst]
  | cons a rest ih =>
    rw [cutFirst]
    by_cases h : p a = true
    · simp [h]
    · simp [h, ih]

/-- The runs put together are the list. -/
theorem flatten_runs {κ : Type} [DecidableEq κ] (kind : α → κ) (items : List α) :
    ((runs kind items).map Prod.snd).flatten = items := by
  induction items with
  | nil => rfl
  | cons a rest ih =>
    rw [runs]
    split
    · rename_i h
      rw [h] at ih
      simp only [List.map_nil, List.flatten_nil] at ih
      simp [← ih]
    · rename_i k run others h
      rw [h] at ih
      split
      · simpa using ih
      · simpa using ih

end Text

end StoragePolicy
