import StoragePolicy.Text.Blank
import StoragePolicy.Text.Case

/-!
# Cuts undone

What has been put together from pieces is cut into the same pieces again, if no piece holds a
separator, and if runs that stand side by side are of different classes. The other way round, the
pieces that a cut gives have these properties.

## Theorems

* `splitWhere_append`, `splitWhere_intersperse`, `of_mem_splitWhere`: Pieces between separators.
* `cutFirst_append`, `eq_append_of_cutFirst`: The two sides of a separator.
* `runs_append`, `of_mem_runs`: Runs of one class.
* `trim_trim`: What has been trimmed has no blank ends.
-/

namespace StoragePolicy

namespace Text

variable {α κ : Type}

/-! ### Pieces between separators -/

theorem splitWhere_of_none (p : α → Bool) (piece : List α) (h : ∀ a ∈ piece, p a = false) :
    splitWhere p piece = [piece] := by
  induction piece with
  | nil => rfl
  | cons a rest ih =>
    rw [splitWhere, h a List.mem_cons_self, ih fun b hb => h b (List.mem_cons_of_mem a hb)]
    rfl

/-- A piece without separators is cut off at the separator behind it. -/
theorem splitWhere_append (p : α → Bool) (piece rest : List α) (separator : α)
    (h : ∀ a ∈ piece, p a = false) (hseparator : p separator = true) :
    splitWhere p (piece ++ separator :: rest) = piece :: splitWhere p rest := by
  induction piece with
  | nil => rw [List.nil_append, splitWhere, if_pos hseparator]
  | cons a more ih =>
    rw [List.cons_append, splitWhere, h a List.mem_cons_self,
      ih fun b hb => h b (List.mem_cons_of_mem a hb)]
    rfl

/-- Only the elements of a list decide how it is cut. -/
theorem splitWhere_congr (p q : α → Bool) (items : List α) (h : ∀ a ∈ items, p a = q a) :
    splitWhere p items = splitWhere q items := by
  induction items with
  | nil => rfl
  | cons a rest ih =>
    rw [splitWhere, splitWhere, h a List.mem_cons_self,
      ih fun b hb => h b (List.mem_cons_of_mem a hb)]

/-- What stands behind the last separator goes on with what is appended. -/
theorem splitWhere_append_of_none (p : α → Bool) (items tail : List α)
    (h : ∀ a ∈ tail, p a = false) :
    ∃ last, splitWhere p (items ++ tail) = (splitWhere p items).dropLast ++ [last ++ tail] := by
  induction items with
  | nil => exact ⟨[], splitWhere_of_none p tail h⟩
  | cons a rest ih =>
    rcases ih with ⟨last, hlast⟩
    rw [List.cons_append, splitWhere, splitWhere, hlast]
    by_cases ha : p a = true
    · refine ⟨last, ?_⟩
      rw [if_pos ha, if_pos ha, List.dropLast_cons_of_ne_nil (splitWhere_ne_nil p rest),
        List.cons_append]
    · rw [if_neg ha, if_neg ha]
      cases hpieces : splitWhere p rest with
      | nil => exact absurd hpieces (splitWhere_ne_nil p rest)
      | cons piece others =>
        cases others with
        | nil => exact ⟨a :: last, rfl⟩
        | cons next more => exact ⟨last, rfl⟩

/-- No piece holds a separator, and every piece consists of elements of the list. -/
theorem of_mem_splitWhere (p : α → Bool) (items piece : List α)
    (h : piece ∈ splitWhere p items) : ∀ a ∈ piece, p a = false ∧ a ∈ items := by
  induction items generalizing piece with
  | nil =>
    rw [splitWhere, List.mem_singleton] at h
    subst h
    intro a ha
    exact absurd ha List.not_mem_nil
  | cons b rest ih =>
    rw [splitWhere] at h
    have hrest : ∀ piece ∈ splitWhere p rest, ∀ a ∈ piece, p a = false ∧ a ∈ b :: rest :=
      fun piece hpiece a ha => ⟨(ih piece hpiece a ha).1,
        List.mem_cons_of_mem b (ih piece hpiece a ha).2⟩
    by_cases hb : p b = true
    · rw [if_pos hb, List.mem_cons] at h
      rcases h with rfl | h
      · intro a ha
        exact absurd ha List.not_mem_nil
      · exact hrest piece h
    · rw [if_neg hb] at h
      have hfirst : p b = false ∧ b ∈ b :: rest := ⟨by simpa using hb, List.mem_cons_self⟩
      -- The rest has a first piece, which the element belongs to.
      cases hpieces : splitWhere p rest with
      | nil => exact absurd hpieces (splitWhere_ne_nil p rest)
      | cons first others =>
        rw [hpieces] at h hrest
        rcases List.mem_cons.mp h with rfl | h
        · intro a ha
          rcases List.mem_cons.mp ha with rfl | ha
          · exact hfirst
          · exact hrest first List.mem_cons_self a ha
        · exact hrest piece (List.mem_cons_of_mem first h)

/-- Pieces without separators, put together with one separator between them, are found again. -/
theorem splitWhere_intersperse (p : α → Bool) (pieces : List (List α)) (separator : α)
    (hne : pieces ≠ []) (h : ∀ piece ∈ pieces, ∀ a ∈ piece, p a = false)
    (hseparator : p separator = true) :
    splitWhere p (pieces.intersperse [separator]).flatten = pieces := by
  induction pieces with
  | nil => exact absurd rfl hne
  | cons piece rest ih =>
    have hpiece := h piece List.mem_cons_self
    cases rest with
    | nil =>
      rw [List.intersperse_singleton, List.flatten_singleton]
      exact splitWhere_of_none p piece hpiece
    | cons next more =>
      have hrest := ih (List.cons_ne_nil next more) fun other hother =>
        h other (List.mem_cons_of_mem piece hother)
      rw [List.intersperse_cons_cons, List.flatten_cons, List.flatten_cons, List.singleton_append,
        splitWhere_append p piece _ separator hpiece hseparator, hrest]

theorem mem_flatten_intersperse (pieces : List (List α)) (separator a : α)
    (h : a ∈ (pieces.intersperse [separator]).flatten) :
    a = separator ∨ ∃ piece ∈ pieces, a ∈ piece := by
  induction pieces with
  | nil => exact absurd h List.not_mem_nil
  | cons piece rest ih =>
    cases rest with
    | nil => exact Or.inr ⟨piece, List.mem_cons_self, by simpa using h⟩
    | cons next more =>
      rw [List.intersperse_cons_cons, List.flatten_cons, List.flatten_cons, List.singleton_append,
        List.mem_append, List.mem_cons] at h
      rcases h with h | h | h
      · exact Or.inr ⟨piece, List.mem_cons_self, h⟩
      · exact Or.inl h
      · refine (ih h).imp id ?_
        rintro ⟨other, hother, hmem⟩
        exact ⟨other, List.mem_cons_of_mem piece hother, hmem⟩

/-- A list is cut at the first separator in it. -/
theorem cutFirst_append (p : α → Bool) (before after : List α) (separator : α)
    (h : ∀ a ∈ before, p a = false) (hseparator : p separator = true) :
    cutFirst p (before ++ separator :: after) = some (before, after) := by
  induction before with
  | nil => rw [List.nil_append, cutFirst, if_pos hseparator]
  | cons a rest ih =>
    rw [List.cons_append, cutFirst, h a List.mem_cons_self,
      ih fun b hb => h b (List.mem_cons_of_mem a hb)]
    rfl

/-- A cut list consists of its two sides and the separator. -/
theorem eq_append_of_cutFirst (p : α → Bool) (items before after : List α)
    (h : cutFirst p items = some (before, after)) :
    ∃ separator, p separator = true ∧ items = before ++ separator :: after := by
  induction items generalizing before with
  | nil => exact nomatch h
  | cons a rest ih =>
    rw [cutFirst] at h
    by_cases ha : p a = true
    · rw [if_pos ha] at h
      cases h
      exact ⟨a, ha, rfl⟩
    · rw [if_neg ha] at h
      rcases Option.map_eq_some_iff.mp h with ⟨⟨first, second⟩, hcut, heq⟩
      cases heq
      rcases ih first hcut with ⟨separator, hseparator, rfl⟩
      exact ⟨separator, hseparator, rfl⟩

theorem cutLast_of_none (p : α → Bool) (items : List α) (h : ∀ a ∈ items, p a = false) :
    cutLast p items = none := by
  induction items with
  | nil => rfl
  | cons a rest ih =>
    rw [cutLast, ih fun b hb => h b (List.mem_cons_of_mem a hb), h a List.mem_cons_self]
    rfl

/-- A list is cut at the last separator in it. -/
theorem cutLast_append (p : α → Bool) (before after : List α) (separator : α)
    (h : ∀ a ∈ after, p a = false) (hseparator : p separator = true) :
    cutLast p (before ++ separator :: after) = some (before, after) := by
  induction before with
  | nil => rw [List.nil_append, cutLast, cutLast_of_none p after h, hseparator, if_pos rfl]
  | cons a rest ih => rw [List.cons_append, cutLast, ih]

theorem eq_append_of_cutLast (p : α → Bool) (items before after : List α)
    (h : cutLast p items = some (before, after)) :
    ∃ separator, p separator = true ∧ items = before ++ separator :: after := by
  induction items generalizing before with
  | nil => exact nomatch h
  | cons a rest ih =>
    rw [cutLast] at h
    cases hcut : cutLast p rest with
    | some sides =>
      rw [hcut] at h
      cases h
      rcases ih sides.1 hcut with ⟨separator, hseparator, rfl⟩
      exact ⟨separator, hseparator, rfl⟩
    | none =>
      rw [hcut] at h
      by_cases ha : p a = true
      · rw [if_pos ha] at h
        cases h
        exact ⟨a, ha, rfl⟩
      · rw [if_neg ha] at h
        exact nomatch h

/-- What stands before the first separator. -/
theorem cutFirst_eq_takeWhile (p : α → Bool) (items : List α) :
    ((cutFirst p items).map Prod.fst).getD items = items.takeWhile fun a => !p a := by
  induction items with
  | nil => rfl
  | cons a rest ih =>
    rw [cutFirst]
    by_cases ha : p a = true
    · rw [if_pos ha, List.takeWhile_cons_of_neg (by simp [ha])]
      rfl
    · rw [if_neg ha, List.takeWhile_cons_of_pos (by simp [ha]), ← ih]
      cases cutFirst p rest <;> rfl

/-! ### Runs -/

variable [DecidableEq κ]

/-- The first run has the class of the first element. -/
theorem runs_head (kind : α → κ) (a : α) (rest : List α) :
    ∃ run others, runs kind (a :: rest) = (kind a, run) :: others := by
  rw [runs]
  split
  · exact ⟨_, _, rfl⟩
  · split
    · rename_i heq
      exact ⟨_, _, by rw [heq]⟩
    · exact ⟨_, _, rfl⟩

/-- A run of one class is found before a text that begins with another class. -/
theorem runs_append (kind : α → κ) (k : κ) (run rest : List α) (hne : run ≠ [])
    (hrun : ∀ a ∈ run, kind a = k) (hrest : ∀ a ∈ rest.head?, kind a ≠ k) :
    runs kind (run ++ rest) = (k, run) :: runs kind rest := by
  induction run with
  | nil => exact absurd rfl hne
  | cons a more ih =>
    have ha := hrun a List.mem_cons_self
    rw [List.cons_append, runs]
    cases more with
    | nil =>
      rw [List.nil_append]
      cases rest with
      | nil => rw [runs, ha]
      | cons b others =>
        -- What follows begins a run of its own, since its first element is of another class.
        rcases runs_head kind b others with ⟨run', others', hruns⟩
        have hne' : kind a ≠ kind b := ha ▸ (hrest b rfl).symm
        rw [hruns]
        dsimp only
        rw [if_neg hne', ha]
    | cons b more' =>
      rw [ih (List.cons_ne_nil b more') fun c hc => hrun c (List.mem_cons_of_mem a hc)]
      dsimp only
      rw [if_pos ha]

/-- Lists that meet with different classes are cut into runs one by one. -/
theorem runs_append_of_ne (kind : α → κ) (before after : List α)
    (h : ∀ a ∈ before.getLast?, ∀ b ∈ after.head?, kind a ≠ kind b) :
    runs kind (before ++ after) = runs kind before ++ runs kind after := by
  induction before with
  | nil => rfl
  | cons a rest ih =>
    by_cases hempty : rest = []
    · subst hempty
      have hfirst : ∀ b ∈ after.head?, kind b ≠ kind a := fun b hb => (h a rfl b hb).symm
      exact runs_append kind (kind a) [a] after (List.cons_ne_nil a []) (by simp) hfirst
    · have hrest := ih fun c hc => h c (by rw [List.getLast?_cons, Option.mem_def.mp hc]; rfl)
      rw [List.cons_append, runs, hrest, runs]
      cases hruns : runs kind rest with
      | nil =>
        have hflat := flatten_runs kind rest
        rw [hruns] at hflat
        exact absurd hflat.symm hempty
      | cons first others =>
        rcases first with ⟨k, run⟩
        rw [List.cons_append]
        dsimp only
        split <;> rfl

/-- Every run is of one class, is not empty, and consists of elements of the list. -/
theorem of_mem_runs (kind : α → κ) (items : List α) (run : κ × List α)
    (h : run ∈ runs kind items) : run.2 ≠ [] ∧ ∀ a ∈ run.2, kind a = run.1 ∧ a ∈ items := by
  induction items generalizing run with
  | nil => exact absurd h List.not_mem_nil
  | cons b rest ih =>
    -- The runs of the rest stay as they are, but for the first, which may grow by the element.
    have hlift : ∀ run ∈ runs kind rest,
        run.2 ≠ [] ∧ ∀ a ∈ run.2, kind a = run.1 ∧ a ∈ b :: rest :=
      fun run hrun => ⟨(ih run hrun).1, fun a ha => ⟨((ih run hrun).2 a ha).1,
        List.mem_cons_of_mem b ((ih run hrun).2 a ha).2⟩⟩
    have halone : [b] ≠ [] ∧ ∀ a ∈ [b], kind a = kind b ∧ a ∈ b :: rest := by simp
    rw [runs] at h
    cases hruns : runs kind rest with
    | nil =>
      rw [hruns, List.mem_singleton] at h
      subst h
      exact halone
    | cons first others =>
      rw [hruns] at h hlift
      have hfirst := hlift first List.mem_cons_self
      rcases first with ⟨k, run'⟩
      dsimp only at h
      by_cases hk : kind b = k
      · rw [if_pos hk] at h
        rcases List.mem_cons.mp h with rfl | h
        · refine ⟨List.cons_ne_nil _ _, fun a ha => ?_⟩
          rcases List.mem_cons.mp ha with rfl | ha
          · exact ⟨hk, List.mem_cons_self⟩
          · exact hfirst.2 a ha
        · exact hlift run (List.mem_cons_of_mem _ h)
      · rw [if_neg hk] at h
        rcases List.mem_cons.mp h with rfl | h
        · exact halone
        · exact hlift run h

/-! ### Blank ends -/

theorem dropWhile_dropWhile (p : α → Bool) (items : List α) :
    (items.dropWhile p).dropWhile p = items.dropWhile p := by
  induction items with
  | nil => rfl
  | cons a rest ih =>
    by_cases ha : p a = true
    · rw [List.dropWhile_cons_of_pos ha, ih]
    · rw [List.dropWhile_cons_of_neg ha, List.dropWhile_cons_of_neg ha]

/-- Taking elements off the end keeps the front free of what was dropped from it. -/
theorem dropWhile_dropEndWhile (p : α → Bool) (items : List α)
    (h : items.dropWhile p = items) :
    (dropEndWhile p items).dropWhile p = dropEndWhile p items := by
  cases hends : dropEndWhile p items with
  | nil => rfl
  | cons a rest =>
    cases items with
    | nil => exact absurd hends (by simp [dropEndWhile])
    | cons b more =>
      have hstart : dropEndWhile p (b :: more) <+: b :: more := by
        rw [dropEndWhile, ← List.reverse_suffix, List.reverse_reverse]
        exact List.dropWhile_suffix p
      rw [hends, List.cons_prefix_cons] at hstart
      have hb : ¬ p b = true := by
        intro hb
        rw [List.dropWhile_cons_of_pos hb] at h
        have hlength := (List.dropWhile_suffix (l := more) p).length_le
        rw [h, List.length_cons] at hlength
        omega
      rw [hstart.1, List.dropWhile_cons_of_neg hb]

/-- What has been trimmed has no blank ends. -/
theorem trim_trim (text : List Char) : trim (trim text) = trim text := by
  have hstart : trimStart (trim text) = trim text :=
    dropWhile_dropEndWhile isBlank _ (dropWhile_dropWhile isBlank text)
  rw [trim, hstart, trimEnd, dropEndWhile, trim, trimEnd, dropEndWhile, List.reverse_reverse,
    dropWhile_dropWhile]

end Text

end StoragePolicy
