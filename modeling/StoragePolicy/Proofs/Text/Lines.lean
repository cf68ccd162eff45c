import StoragePolicy.Proofs.Text.Pieces
import Mathlib.Data.List.Induction
import Mathlib.Data.List.TakeWhile

/-!
# Lines and what is blank at their ends

A list with separators is a first piece with its separator and the rest, or has no separator.
Whatever is said of the lines of a text is shown along that, line by line.

Lines are compared up to their blank ends, since readers trim what they get. The line end is blank
itself, so that it does not matter whether it is still there.

## Theorems

* `pieces_induction`: What holds of a last piece, and of a piece in front of a rest of which it
  holds, holds of every list.
* `lines_append`, `lines_of_none`: The lines of a text, one by one.
* `trim_append_blank`, `trim_trimEnd`, `trim_dropReturn`: Blank ends do not matter to trimming.
-/

namespace StoragePolicy

namespace Text

/-! ### Line by line -/

theorem pieces_induction {α : Type} (isEnd : α → Bool) {motive : List α → Prop}
    (last : ∀ piece, (∀ a ∈ piece, isEnd a = false) → motive piece)
    (line : ∀ piece a rest, (∀ a ∈ piece, isEnd a = false) → isEnd a = true → motive rest →
      motive (piece ++ a :: rest)) (items : List α) : motive items := by
  -- The part of a piece that has been passed already grows until its end comes.
  suffices h : ∀ items passed, (∀ a ∈ passed, isEnd a = false) → motive (passed ++ items) from
    h items [] fun _ ha => absurd ha List.not_mem_nil
  intro items
  induction items with
  | nil =>
    intro passed hpassed
    rw [List.append_nil]
    exact last passed hpassed
  | cons a rest ih =>
    intro passed hpassed
    by_cases ha : isEnd a = true
    · exact line passed a rest hpassed ha (ih [] fun _ hb => absurd hb List.not_mem_nil)
    · rw [← List.singleton_append, ← List.append_assoc]
      refine ih (passed ++ [a]) fun b hb => ?_
      rcases List.mem_append.mp hb with hb | hb
      · exact hpassed b hb
      · rw [List.mem_singleton.mp hb]
        simpa using ha

theorem lines_append (piece rest : List Char) (h : ∀ c ∈ piece, decide (c = '\n') = false) :
    lines (piece ++ '\n' :: rest) = dropReturn piece :: lines rest := by
  rw [lines, lines, splitWhere_append _ _ _ _ h (decide_eq_true rfl), List.reverse_cons]
  cases hpieces : (splitWhere (fun c => decide (c = '\n')) rest).reverse with
  | nil => exact absurd (List.reverse_eq_nil_iff.mp hpieces) (splitWhere_ne_nil _ rest)
  | cons final ended =>
    rw [List.cons_append]
    dsimp only
    rw [List.reverse_append, List.reverse_singleton, List.singleton_append, List.map_cons,
      List.cons_append]

theorem lines_of_none (piece : List Char) (h : ∀ c ∈ piece, decide (c = '\n') = false) :
    lines piece = if piece.isEmpty then [] else [piece] := by
  rw [lines, splitWhere_of_none _ _ h]
  rfl

/-! ### Blank ends -/

theorem trimEnd_append_blank (text : List Char) (c : Char) (h : isBlank c = true) :
    trimEnd (text ++ [c]) = trimEnd text := by
  rw [trimEnd, dropEndWhile, List.reverse_append, List.reverse_singleton, List.singleton_append,
    List.dropWhile_cons_of_pos h]
  rfl

/-- A blank character at the end does not matter to trimming. -/
theorem trim_append_blank (text : List Char) (c : Char) (h : isBlank c = true) :
    trim (text ++ [c]) = trim text := by
  rw [trim, trim, trimStart, trimStart, List.dropWhile_append]
  cases hstart : text.dropWhile isBlank with
  | nil =>
    rw [List.isEmpty_nil, if_pos rfl, List.dropWhile_cons_of_pos h]
    rfl
  | cons a rest =>
    rw [List.isEmpty_cons, if_neg Bool.false_ne_true]
    exact trimEnd_append_blank (a :: rest) c h

theorem trim_trimEnd (text : List Char) : trim (trimEnd text) = trim text := by
  induction text using List.reverseRecOn with
  | nil => rfl
  | append_singleton rest c ih =>
    by_cases h : isBlank c = true
    · rw [trimEnd_append_blank rest c h, trim_append_blank rest c h, ih]
    · rw [trimEnd, dropEndWhile, List.reverse_append, List.reverse_singleton,
        List.singleton_append, List.dropWhile_cons_of_neg h, List.reverse_cons,
        List.reverse_reverse]

theorem trim_dropReturn (line : List Char) : trim (dropReturn line) = trim line := by
  rw [dropReturn, dropTail?]
  split
  · rename_i h
    rcases List.isSuffixOf_iff_suffix.mp h with ⟨rest, rfl⟩
    rw [Option.getD_some, List.length_append, Nat.add_sub_cancel, List.take_left,
      trim_append_blank rest '\r' (by decide)]
  · rfl

theorem trim_of_allBlank (line : List Char) (h : allBlank line = true) : trim line = [] := by
  have hnone : line.dropWhile isBlank = [] := List.dropWhile_eq_nil_iff.mpr (List.all_eq_true.mp h)
  rw [trim, trimStart, hnone]
  rfl

end Text

end StoragePolicy
