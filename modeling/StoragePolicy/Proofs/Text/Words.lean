import StoragePolicy.Proofs.Text.Lines

/-!
# Words between blanks

The words of a text are found again wherever they stand, with any amount of blanks around them.
Which words stand in a text is said here as a relation from the words to the texts, without any cut;
a text is cut into words exactly as it could be written. Blanks at the ends of a text belong to no
word, so trimming does not change the words.

Pieces between separators and the name of an ending are found again in the same way.

## Main definitions

* `Text.Spaced`: Texts in which given words stand.

## Theorems

* `spaced_iff`: The words that stand in a text are those that it is cut into.
* `words_trim`: Trimming does not change the words.
* `splitWhere_eq_cons`, `cutFirst_eq_some_iff`: Where the first piece ends.
* `getD_dropTail?_eq_iff`: What is left of a text without an ending that it may have.
-/

namespace StoragePolicy

namespace Text

/-- Texts in which given words stand. Blanks may stand anywhere but inside a word, and behind a word
    there is one, or the text ends. -/
inductive Spaced : List (List Char) → List Char → Prop
  | nil : Spaced [] []
  | blank (c : Char) (words : List (List Char)) (text : List Char) (hc : isBlank c = true)
      (h : Spaced words text) : Spaced words (c :: text)
  | word (chars : List Char) (words : List (List Char)) (rest : List Char) (hne : chars ≠ [])
      (hchars : ∀ c ∈ chars, isBlank c = false) (hrest : ∀ c ∈ rest.head?, isBlank c = true)
      (h : Spaced words rest) : Spaced (chars :: words) (chars ++ rest)

/-! ### Words -/

theorem words_blank (c : Char) (text : List Char) (hc : isBlank c = true) :
    words (c :: text) = words text := by
  rw [words, words, runs]
  cases runs isBlank text with
  | nil => simp [hc]
  | cons first others =>
    rcases first with ⟨k, run⟩
    dsimp only
    by_cases hk : isBlank c = k
    · rw [if_pos hk, ← hk]
      simp [hc]
    · rw [if_neg hk]
      simp [hc]

theorem words_of_spaced (pieces : List (List Char)) (text : List Char) (h : Spaced pieces text) :
    words text = pieces := by
  induction h with
  | nil => rfl
  | blank c pieces text hc h ih => rw [words_blank c text hc, ih]
  | word chars pieces rest hne hchars hrest h ih =>
    have hfirst : ∀ c ∈ rest.head?, isBlank c ≠ false := fun c hc => by simp [hrest c hc]
    rw [words, runs_append isBlank false chars rest hne hchars hfirst, List.filterMap_cons,
      ← words, ih]
    rfl

/-- In every text some words stand. -/
theorem exists_spaced (text : List Char) : ∃ pieces, Spaced pieces text := by
  induction text with
  | nil => exact ⟨[], .nil⟩
  | cons c rest ih =>
    rcases ih with ⟨pieces, h⟩
    by_cases hc : isBlank c = true
    · exact ⟨pieces, .blank c pieces rest hc h⟩
    · rw [Bool.not_eq_true] at hc
      -- The character is a word of its own, or it stands before the rest of one.
      have halone : (∀ d ∈ rest.head?, isBlank d = true) → Spaced ([c] :: pieces) (c :: rest) :=
        fun hrest => .word [c] pieces rest (List.cons_ne_nil c []) (by simpa using hc) hrest h
      cases h with
      | nil => exact ⟨_, halone (by simp)⟩
      | blank d pieces text hd h' =>
        refine ⟨_, halone fun d' hd' => ?_⟩
        cases hd'
        exact hd
      | word chars pieces rest hne hchars hrest h' =>
        refine ⟨(c :: chars) :: pieces,
          .word (c :: chars) pieces rest (List.cons_ne_nil c chars) (fun d hd => ?_) hrest h'⟩
        rcases List.mem_cons.mp hd with rfl | hd
        · exact hc
        · exact hchars d hd

/-- The words that stand in a text are those that it is cut into. -/
theorem spaced_iff (pieces : List (List Char)) (text : List Char) :
    Spaced pieces text ↔ words text = pieces := by
  refine ⟨words_of_spaced pieces text, ?_⟩
  rintro rfl
  rcases exists_spaced text with ⟨pieces, h⟩
  rw [words_of_spaced pieces text h]
  exact h

theorem spaced_append_blank (pieces : List (List Char)) (text : List Char) (c : Char)
    (hc : isBlank c = true) (h : Spaced pieces text) : Spaced pieces (text ++ [c]) := by
  induction h with
  | nil => exact .blank c [] [] hc .nil
  | blank d pieces text hd h ih => exact .blank d pieces _ hd ih
  | word chars pieces rest hne hchars hrest h ih =>
    rw [List.append_assoc]
    refine .word chars pieces _ hne hchars (fun d hd => ?_) ih
    cases rest with
    | nil =>
      cases hd
      exact hc
    | cons first more => exact hrest d hd

theorem words_trimStart (text : List Char) : words (trimStart text) = words text := by
  induction text with
  | nil => rfl
  | cons c rest ih =>
    by_cases hc : isBlank c = true
    · rw [trimStart, List.dropWhile_cons_of_pos hc, ← trimStart, ih, words_blank c rest hc]
    · rw [trimStart, List.dropWhile_cons_of_neg hc]

theorem words_trimEnd (text : List Char) : words (trimEnd text) = words text := by
  induction text using List.reverseRecOn with
  | nil => rfl
  | append_singleton rest c ih =>
    by_cases hc : isBlank c = true
    · have hspaced := spaced_append_blank (words rest) rest c hc ((spaced_iff _ _).mpr rfl)
      rw [trimEnd_append_blank rest c hc, ih, (spaced_iff _ _).mp hspaced]
    · rw [trimEnd, dropEndWhile, List.reverse_append, List.reverse_singleton,
        List.singleton_append, List.dropWhile_cons_of_neg hc, List.reverse_cons,
        List.reverse_reverse]

/-- Trimming does not change the words. -/
theorem words_trim (text : List Char) : words (trim text) = words text := by
  rw [trim, words_trimEnd, words_trimStart]

/-- What has been trimmed begins with its first word. -/
theorem head?_trim_of_spaced (first : List Char) (pieces : List (List Char)) (text : List Char)
    (h : Spaced (first :: pieces) text) : (trim text).head? = first.head? := by
  have hspaced : Spaced (first :: pieces) (trim text) := by
    rw [spaced_iff, words_trim, (spaced_iff _ _).mp h]
  have hstart : (trim text).dropWhile isBlank = trim text :=
    dropWhile_dropEndWhile isBlank _ (dropWhile_dropWhile isBlank text)
  generalize trim text = trimmed at hspaced hstart
  cases hspaced with
  | blank c pieces rest hc h' =>
    -- No blank is left in front.
    rw [List.dropWhile_cons_of_pos hc] at hstart
    have hlength := (List.dropWhile_suffix (l := rest) isBlank).length_le
    rw [hstart, List.length_cons] at hlength
    omega
  | word chars pieces rest hne hchars hrest h' =>
    cases first with
    | nil => exact absurd rfl hne
    | cons c more => rfl

/-! ### Pieces -/

section Pieces

variable {α : Type} (p : α → Bool)

/-- A piece has no separators if the one that there is does not stand in it. -/
theorem free_iff [DecidableEq α] (separator : α) (piece : List α) :
    (∀ a ∈ piece, decide (a = separator) = false) ↔ separator ∉ piece := by
  constructor
  · intro h hmem
    exact of_decide_eq_false (h separator hmem) rfl
  · intro h a ha
    exact decide_eq_false fun heq => h (heq ▸ ha)

/-- Where there are several pieces, the first of them ends at the first separator. -/
theorem splitWhere_eq_cons_cons (items piece next : List α) (others : List (List α))
    (h : splitWhere p items = piece :: next :: others) :
    ∃ a rest, items = piece ++ a :: rest ∧ (∀ b ∈ piece, p b = false) ∧ p a = true ∧
      splitWhere p rest = next :: others := by
  induction items using pieces_induction p with
  | last first hfirst =>
    rw [splitWhere_of_none p first hfirst] at h
    exact nomatch (List.cons.inj h).2
  | line first a rest hfirst ha ih =>
    rw [splitWhere_append p first rest a hfirst ha] at h
    rcases List.cons.inj h with ⟨rfl, hrest⟩
    exact ⟨a, rest, rfl, hfirst, ha, hrest⟩

/-- The first piece is followed by a separator, or by nothing. -/
theorem splitWhere_eq_cons (items piece : List α) (others : List (List α))
    (h : splitWhere p items = piece :: others) :
    ∃ rest, items = piece ++ rest ∧ (∀ a ∈ piece, p a = false) ∧ ∀ a ∈ rest.head?, p a = true := by
  induction items using pieces_induction p with
  | last first hfirst =>
    rw [splitWhere_of_none p first hfirst] at h
    cases h
    exact ⟨[], (List.append_nil _).symm, hfirst, by simp⟩
  | line first a rest hfirst ha ih =>
    rw [splitWhere_append p first rest a hfirst ha] at h
    cases h
    refine ⟨a :: rest, rfl, hfirst, fun b hb => ?_⟩
    cases hb
    exact ha

theorem exists_splitWhere_append (piece rest : List α) (hpiece : ∀ a ∈ piece, p a = false)
    (hrest : ∀ a ∈ rest.head?, p a = true) :
    ∃ others, splitWhere p (piece ++ rest) = piece :: others := by
  cases rest with
  | nil => exact ⟨[], by rw [List.append_nil, splitWhere_of_none p piece hpiece]⟩
  | cons a more => exact ⟨_, splitWhere_append p piece more a hpiece (hrest a rfl)⟩

/-- The first separator is the one before which there is none. -/
theorem cutFirst_eq_some_iff (items before after : List α) :
    cutFirst p items = some (before, after) ↔
      ∃ a, items = before ++ a :: after ∧ p a = true ∧ ∀ b ∈ before, p b = false := by
  constructor
  · intro h
    rcases eq_append_of_cutFirst p items before after h with ⟨a, ha, rfl⟩
    refine ⟨a, rfl, ha, fun b hb => ?_⟩
    have hbefore := cutFirst_eq_takeWhile p (before ++ a :: after)
    rw [h] at hbefore
    change before = _ at hbefore
    rw [hbefore] at hb
    simpa using List.mem_takeWhile_imp hb
  · rintro ⟨a, rfl, ha, hbefore⟩
    exact cutFirst_append p before after a hbefore ha

/-- A text is freed of an ending that it has, once. -/
theorem getD_dropTail?_eq_iff [DecidableEq α] (ending items left : List α) :
    (dropTail? ending items).getD items = left ↔
      items = left ++ ending ∨ items = left ∧ ¬ ending <:+ items := by
  rw [dropTail?]
  by_cases hending : ending <:+ items
  · rw [if_pos (List.isSuffixOf_iff_suffix.mpr hending)]
    rcases hending with ⟨start, rfl⟩
    rw [Option.getD_some, List.length_append, Nat.add_sub_cancel, List.take_left]
    constructor
    · rintro rfl
      exact Or.inl rfl
    · rintro (heq | ⟨-, hnot⟩)
      · exact List.append_cancel_right heq
      · exact absurd (List.suffix_append start ending) hnot
  · rw [if_neg fun h => hending (List.isSuffixOf_iff_suffix.mp h), Option.getD_none]
    constructor
    · rintro rfl
      exact Or.inr ⟨rfl, hending⟩
    · rintro (rfl | ⟨rfl, -⟩)
      · exact absurd (List.suffix_append left ending) hending
      · rfl

end Pieces

end Text

end StoragePolicy
