import StoragePolicy.Proofs.Condition.RoundTrip
import StoragePolicy.Rule.Parser

/-!
# Words as they are written

Between the words of a rule there may be any amount of blank space, and around commas there may be
some or none. All texts in which the same words are written are the same to the reader.

The words of a condition are joined again with one blank between them before they are read as a
condition. That is another writing of the same words, and the tokens of a condition go by its words
only: a blank always ends a token.

## Main definitions

* `Word.Written`: Texts in which given words are written.

## Theorems

* `written_iff`: The words that are written in a text are those that are scanned.
* `tokens_of_written`: The tokens of a condition are those of its words.
* `readCondition_scan`: The words of a condition are read as the condition.
-/

namespace StoragePolicy

namespace Rule

namespace Word

/-- Texts in which given words are written. There is blank space wherever it is wanted, and some
    between any two texts that are not separated by a comma. -/
inductive Written : List Word → List Char → Prop
  | nil : Written [] []
  | blank (c : Char) (words : List Word) (text : List Char) (hc : CharClass.of c = .blank)
      (h : Written words text) : Written words (c :: text)
  | comma (words : List Word) (text : List Char) (h : Written words text) :
      Written (.comma :: words) (',' :: text)
  | text (chars : List Char) (words : List Word) (rest : List Char) (hne : chars ≠ [])
      (hplain : ∀ c ∈ chars, CharClass.of c = .plain)
      (hrest : ∀ c ∈ rest.head?, CharClass.of c ≠ .plain) (h : Written words rest) :
      Written (.text chars :: words) (chars ++ rest)

/-! ### Scanning -/

theorem eq_comma (c : Char) (hc : CharClass.of c = .comma) : c = ',' := by
  rw [CharClass.of] at hc
  split at hc
  · assumption
  · split at hc <;> exact nomatch hc

/-- Characters that belong to no text are scanned one by one. -/
theorem scan_cons (c : Char) (rest : List Char) (hc : CharClass.of c ≠ .plain) :
    scan (c :: rest) = ofRun (CharClass.of c, [c]) ++ scan rest := by
  have hsplit : ∀ (k : CharClass) (run : List Char), k ≠ .plain →
      ofRun (k, c :: run) = ofRun (k, [c]) ++ ofRun (k, run) := by
    intro k run hk
    cases k with
    | plain => exact absurd rfl hk
    | blank => rfl
    | comma => rfl
  rw [scan, scan, Text.runs]
  cases Text.runs CharClass.of rest with
  | nil => rfl
  | cons first others =>
    rcases first with ⟨k, run⟩
    dsimp only
    by_cases hk : CharClass.of c = k
    · rw [if_pos hk, List.flatMap_cons, List.flatMap_cons, ← List.append_assoc, ← hk,
        hsplit _ run hc]
    · rw [if_neg hk, List.flatMap_cons]

/-- The words that are written are scanned. -/
theorem scan_of_written (words : List Word) (text : List Char) (h : Written words text) :
    scan text = words := by
  induction h with
  | nil => rfl
  | blank c words text hc h ih =>
    rw [scan_cons c text (by rw [hc]; decide), hc, ih]
    rfl
  | comma words text h ih =>
    rw [scan_cons ',' text (by decide), ih]
    rfl
  | text chars words rest hne hplain hrest h ih =>
    rw [scan, Text.runs_append CharClass.of .plain chars rest hne hplain hrest, List.flatMap_cons,
      ← scan, ih]
    rfl

/-- In every text some words are written. -/
theorem exists_written (text : List Char) : ∃ words, Written words text := by
  induction text with
  | nil => exact ⟨[], .nil⟩
  | cons c rest ih =>
    rcases ih with ⟨words, h⟩
    cases hc : CharClass.of c with
    | blank => exact ⟨words, .blank c words rest hc h⟩
    | comma => exact ⟨.comma :: words, eq_comma c hc ▸ .comma words rest h⟩
    | plain =>
      -- The character begins a text, or it stands before the rest of one.
      have halone : (∀ d ∈ rest.head?, CharClass.of d ≠ .plain) →
          Written (.text [c] :: words) (c :: rest) := fun hrest =>
        .text [c] words rest (List.cons_ne_nil c []) (by simpa using hc) hrest h
      cases h with
      | nil => exact ⟨_, halone (by simp)⟩
      | blank d words text hd h' =>
        refine ⟨_, halone fun d' hd' => ?_⟩
        cases hd'
        rw [hd]
        decide
      | comma words text h' =>
        refine ⟨_, halone fun d' hd' => ?_⟩
        cases hd'
        decide
      | text chars words rest hne hplain hrest h' =>
        refine ⟨.text (c :: chars) :: words,
          .text (c :: chars) words rest (List.cons_ne_nil c chars) (fun d hd => ?_) hrest h'⟩
        rcases List.mem_cons.mp hd with rfl | hd
        · exact hc
        · exact hplain d hd

theorem written_scan (text : List Char) : Written (scan text) text := by
  rcases exists_written text with ⟨words, h⟩
  rw [scan_of_written words text h]
  exact h

/-- The words that are written in a text are those that are scanned. -/
theorem written_iff (words : List Word) (text : List Char) :
    Written words text ↔ scan text = words := by
  refine ⟨scan_of_written words text, ?_⟩
  rintro rfl
  exact written_scan text

/-- What is written consists of characters of the text. -/
theorem mem_of_written (words : List Word) (text chars : List Char) (h : Written words text)
    (hchars : .text chars ∈ words) :
    chars ≠ [] ∧ ∀ c ∈ chars, CharClass.of c = .plain ∧ c ∈ text := by
  induction h with
  | nil => exact absurd hchars List.not_mem_nil
  | blank c words text hc h ih =>
    rcases ih hchars with ⟨hne, hall⟩
    exact ⟨hne, fun d hd => ⟨(hall d hd).1, List.mem_cons_of_mem c (hall d hd).2⟩⟩
  | comma words text h ih =>
    rcases ih (by simpa using hchars) with ⟨hne, hall⟩
    exact ⟨hne, fun d hd => ⟨(hall d hd).1, List.mem_cons_of_mem _ (hall d hd).2⟩⟩
  | text first words rest hne hplain hrest h ih =>
    rcases List.mem_cons.mp hchars with heq | hmem
    · cases heq
      exact ⟨hne, fun d hd => ⟨hplain d hd, List.mem_append_left _ hd⟩⟩
    · rcases ih hmem with ⟨hne', hall⟩
      exact ⟨hne', fun d hd => ⟨(hall d hd).1, List.mem_append_right _ (hall d hd).2⟩⟩

theorem comma_of_written (words : List Word) (text : List Char) (h : Written words text)
    (hcomma : .comma ∈ words) : ',' ∈ text := by
  induction h with
  | nil => exact absurd hcomma List.not_mem_nil
  | blank c words text hc h ih => exact List.mem_cons_of_mem c (ih hcomma)
  | comma words text h ih => exact List.mem_cons_self
  | text chars words rest hne hplain hrest h ih =>
    exact List.mem_append_right _ (ih (by simpa using hcomma))

/-- Texts joined with one blank between them are a writing of them. -/
theorem written_spaced (pieces : List (List Char))
    (h : ∀ piece ∈ pieces, piece ≠ [] ∧ ∀ c ∈ piece, CharClass.of c = .plain) :
    Written (pieces.map .text) (pieces.intersperse [' ']).flatten := by
  induction pieces with
  | nil => exact .nil
  | cons piece rest ih =>
    have hpiece := h piece List.mem_cons_self
    have hrest := ih fun other hother => h other (List.mem_cons_of_mem piece hother)
    cases rest with
    | nil => exact .text piece [] [] hpiece.1 hpiece.2 (by simp) .nil
    | cons next more =>
      refine .text piece _ _ hpiece.1 hpiece.2 (fun c hc => ?_)
        (.blank ' ' _ _ (by decide) hrest)
      cases hc
      decide

end Word

theorem texts_map (pieces : List (List Char)) : texts (pieces.map .text) = .ok pieces := by
  rw [texts, Outcome.mapM_eq_ok]
  induction pieces with
  | nil => exact .nil
  | cons piece rest ih => exact .cons rfl ih

/-- Words without a comma are texts. -/
theorem exists_pieces (words : List Word) (h : .comma ∉ words) :
    ∃ pieces : List (List Char), words = pieces.map .text := by
  induction words with
  | nil => exact ⟨[], rfl⟩
  | cons w rest ih =>
    rcases ih fun hmem => h (List.mem_cons_of_mem w hmem) with ⟨pieces, rfl⟩
    cases w with
    | comma => exact absurd List.mem_cons_self h
    | text chars => exact ⟨chars :: pieces, rfl⟩

/-! ### The words of a condition -/

section Condition

open Condition (Token)

/-- The tokens in a text, foreign characters left out. -/
def tokens (text : List Char) : List Token :=
  (Text.runs Condition.CharClass.of text).filterMap Token.ofRun?

theorem scan_eq_tokens (text : List Char)
    (h : ∀ c ∈ text, Condition.CharClass.of c ≠ .foreign) :
    Token.scan text = .ok (tokens text) := by
  have hfind : text.find? (fun c => Condition.CharClass.of c = .foreign) = none := by
    rw [List.find?_eq_none]
    intro c hc
    simpa using h c hc
  rw [Token.scan, hfind, tokens]

theorem tokens_blank (c : Char) (rest : List Char) (hc : Condition.CharClass.of c = .blank) :
    tokens (c :: rest) = tokens rest := by
  rw [tokens, tokens, Text.runs, hc]
  cases Text.runs Condition.CharClass.of rest with
  | nil => rfl
  | cons first others =>
    rcases first with ⟨k, run⟩
    dsimp only
    split
    · rename_i hk
      rw [← hk]
      rfl
    · rfl

/-- The blanks of a rule are those of a condition. -/
theorem blank_iff (c : Char) :
    Condition.CharClass.of c = .blank ↔ Word.CharClass.of c = .blank := by
  have hcomma : Text.isBlank ',' = false := by decide
  rw [Condition.CharClass.of, Word.CharClass.of]
  by_cases hblank : Text.isBlank c = true
  · have hne : c ≠ ',' := by
      rintro rfl
      rw [hcomma] at hblank
      cases hblank
    simp [hblank, hne]
  · rw [if_neg hblank]
    constructor
    · intro h
      split at h
      · cases h
      · split at h <;> cases h
    · intro h
      split at h
      · cases h
      · cases h

/-- The tokens of a condition are those of its words. -/
theorem tokens_of_written (pieces : List (List Char)) (text : List Char)
    (h : Word.Written (pieces.map .text) text) (hcomma : ',' ∉ text) :
    tokens text = pieces.flatMap tokens := by
  generalize hwords : pieces.map Word.text = words at h
  induction h generalizing pieces with
  | nil =>
    rw [List.map_eq_nil_iff] at hwords
    rw [hwords]
    rfl
  | blank c words text hc h ih =>
    rw [tokens_blank c text ((blank_iff c).mpr hc),
      ih pieces (fun hmem => hcomma (List.mem_cons_of_mem c hmem)) hwords]
  | comma words text h ih =>
    cases pieces with
    | nil => exact nomatch hwords
    | cons piece rest => exact nomatch hwords
  | text chars words rest hne hplain hrest h ih =>
    cases pieces with
    | nil => exact nomatch hwords
    | cons piece others =>
      cases hwords
      -- What follows a text begins with a blank, where a token ends.
      have hblank : ∀ c ∈ rest.head?, Condition.CharClass.of c = .blank := by
        intro c hc
        rw [blank_iff]
        cases hclass : Word.CharClass.of c with
        | blank => rfl
        | plain => exact absurd hclass (hrest c hc)
        | comma =>
          have hmem := List.mem_append_right chars (List.mem_of_mem_head? hc)
          rw [Word.eq_comma c hclass] at hmem
          exact absurd hmem hcomma
      have hends : ∀ x ∈ chars.getLast?, ∀ y ∈ rest.head?,
          Condition.CharClass.of x ≠ Condition.CharClass.of y := by
        intro x hx y hy heq
        rw [hblank y hy, blank_iff, hplain x (List.mem_of_mem_getLast? hx)] at heq
        exact nomatch heq
      rw [tokens, Text.runs_append_of_ne _ chars rest hends, List.filterMap_append, ← tokens,
        ← tokens, ih others (fun hmem => hcomma (List.mem_append_right chars hmem)) rfl,
        List.flatMap_cons]

/-- The words of a condition are read as the condition. -/
theorem readCondition_scan (rule : String) (text : List Char) (condition : Condition)
    (h : Condition.parse (String.ofList text) = .ok condition) :
    .comma ∉ Word.scan text ∧ readCondition rule (Word.scan text) = .ok condition := by
  rw [Condition.parse, String.toList_ofList] at h
  have hforeign : ∀ c ∈ text, Condition.CharClass.of c ≠ .foreign := by
    intro c hc hclass
    cases hfind : text.find? (fun c => Condition.CharClass.of c = .foreign) with
    | none => exact absurd hclass (by simpa using List.find?_eq_none.mp hfind c hc)
    | some d =>
      rw [Token.scan, hfind] at h
      cases h
  have hcomma : ',' ∉ text := fun hmem => hforeign ',' hmem (by decide +kernel)
  have hwritten := Word.written_scan text
  have hnone : .comma ∉ Word.scan text := fun hmem =>
    hcomma (Word.comma_of_written _ text hwritten hmem)
  refine ⟨hnone, ?_⟩
  rcases exists_pieces _ hnone with ⟨pieces, hpieces⟩
  rw [hpieces] at hwritten ⊢
  have hplain : ∀ piece ∈ pieces,
      piece ≠ [] ∧ ∀ c ∈ piece, Word.CharClass.of c = .plain ∧ c ∈ text :=
    fun piece hpiece => Word.mem_of_written _ text piece hwritten (List.mem_map_of_mem hpiece)
  -- The words joined with blanks are another writing of them.
  have hspaced := Word.written_spaced pieces fun piece hpiece =>
    ⟨(hplain piece hpiece).1, fun c hc => ((hplain piece hpiece).2 c hc).1⟩
  have hchars : ∀ c ∈ (pieces.intersperse [' ']).flatten, c = ' ' ∨ c ∈ text := by
    intro c hc
    refine (Text.mem_flatten_intersperse pieces _ c hc).imp (fun h => h) ?_
    rintro ⟨piece, hpiece, hmem⟩
    exact ((hplain piece hpiece).2 c hmem).2
  have hspacedForeign : ∀ c ∈ (pieces.intersperse [' ']).flatten,
      Condition.CharClass.of c ≠ .foreign := by
    intro c hc
    rcases hchars c hc with rfl | hmem
    · decide
    · exact hforeign c hmem
  have hspacedComma : ',' ∉ (pieces.intersperse [' ']).flatten := fun hmem =>
    hspacedForeign ',' hmem (by decide +kernel)
  have hread : Condition.parse (spaced pieces) = .ok condition := by
    rw [spaced, Condition.parse, String.toList_ofList, scan_eq_tokens _ hspacedForeign,
      tokens_of_written pieces _ hspaced hspacedComma,
      ← tokens_of_written pieces text hwritten hcomma, ← scan_eq_tokens text hforeign]
    exact h
  rw [readCondition, texts_map]
  dsimp only
  rw [hread]
  rfl

end Condition

end Rule

end StoragePolicy
