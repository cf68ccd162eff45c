import Mathlib
import StoragePolicy.Proofs.Rule.Sentence

/-!
# Every sentence can be written

The words of a sentence are commas and texts that are not empty and have neither a blank nor a comma
in them. So there is a text in which they are written. For a keyword that is so in any case it is
written in, since letters are no separators.

## Main definitions

* `Word.Sound`: Words that can be written.

## Theorems

* `Word.exists_written_of_sound`: Words that can be written are written in some text.
* `exists_written_sentence`: Every sentence can be written.
-/

namespace StoragePolicy

namespace Rule

namespace Word

/-- A word that can be written: a comma, or a text that is not empty and has no separator in it. -/
def Sound : Word → Prop
  | .comma => True
  | .text chars => chars ≠ [] ∧ ∀ c ∈ chars, CharClass.of c = .plain

/-- With a blank behind every text the words are kept apart. -/
theorem exists_written_of_sound (words : List Word) (h : ∀ w ∈ words, w.Sound) :
    ∃ text, Written words text := by
  induction words with
  | nil => exact ⟨[], .nil⟩
  | cons w rest ih =>
    rcases ih fun other hother => h other (List.mem_cons_of_mem w hother) with ⟨text, hrest⟩
    cases w with
    | comma => exact ⟨_, .comma rest text hrest⟩
    | text chars =>
      rcases h (.text chars) List.mem_cons_self with ⟨hne, hplain⟩
      refine ⟨_, .text chars rest (' ' :: text) hne hplain (fun c hc => ?_)
        (.blank ' ' rest text (by decide) hrest)⟩
      cases hc
      decide

theorem sound_append (before after : List Char) (hbefore : Sound (.text before))
    (hafter : ∀ c ∈ after, CharClass.of c = .plain) : Sound (.text (before ++ after)) := by
  refine ⟨?_, List.forall_mem_append.mpr ⟨hbefore.2, hafter⟩⟩
  intro hempty
  exact hbefore.1 (List.append_eq_nil_iff.mp hempty).1

/-- A printed character other than a comma belongs to a text. -/
theorem plain_of_printed (c : Char) (hlow : 0x20 < c.toNat) (hhigh : c.toNat < 0x7F)
    (hcomma : c ≠ ',') : CharClass.of c = .plain := by
  have hblank : Text.isBlank c = false := by
    simp only [Text.isBlank, Text.inRanges, Text.blankRanges, List.any_cons, List.any_nil,
      Bool.or_false, Bool.or_eq_false_iff, Bool.and_eq_false_iff, decide_eq_false_iff_not]
    omega
  rw [CharClass.of, if_neg hcomma, hblank, if_neg Bool.false_ne_true]

/-- A character whose small letter is plain is plain itself. -/
theorem plain_of_toLower (c : Char) (h : CharClass.of c.toLower = .plain) :
    CharClass.of c = .plain := by
  by_cases hupper : c.isUpper = true
  · have hrange : 65 ≤ c.toNat ∧ c.toNat ≤ 90 := by
      simpa [Char.isUpper, UInt32.le_iff_toNat_le] using hupper
    refine plain_of_printed c (by omega) (by omega) ?_
    rintro rfl
    exact absurd hrange (by decide)
  · rwa [Char.toLower_eq_of_not_isUpper hupper] at h

theorem plain_of_isDigit (c : Char) (h : c.isDigit = true) : CharClass.of c = .plain := by
  have hrange : 48 ≤ c.toNat ∧ c.toNat ≤ 57 := by
    simpa [Char.isDigit, UInt32.le_iff_toNat_le] using h
  refine plain_of_printed c (by omega) (by omega) ?_
  rintro rfl
  exact absurd hrange (by decide)

end Word

open Word (Sound)

/-! ### Phrases -/

theorem sound_spelling (keyword : String) (s : Spelling keyword) (hne : keyword.toList ≠ [])
    (h : (Text.lower keyword.toList).all (fun c => Word.CharClass.of c = .plain) = true) :
    Sound (.text s.1) := by
  have hsame := lower_spelling keyword s
  refine ⟨?_, fun c hc => ?_⟩
  · intro hempty
    rw [hempty] at hsame
    exact hne (List.map_eq_nil_iff.mp hsame.symm)
  · have hmem : c.toLower ∈ Text.lower keyword.toList := hsame ▸ List.mem_map_of_mem hc
    exact Word.plain_of_toLower c (of_decide_eq_true (List.all_eq_true.mp h _ hmem))

theorem sound_name (n : Name) : Sound (.text n.chars) :=
  ⟨n.ne, fun c hc => of_decide_eq_true (List.all_eq_true.mp n.plain c hc)⟩

theorem sound_target (p : TargetPhrase) : ∀ w ∈ p.words, w.Sound := by
  have hspelling : Sound (.text p.spelling.1) := by
    rcases p with ⟨kind, spelling, -, -, -, -⟩
    cases kind with
    | tenant => exact sound_spelling "TENANT" spelling (by decide) (by decide)
    | container => exact sound_spelling "CONTAINER" spelling (by decide) (by decide)
  have hcolon : ∀ c ∈ ':' :: p.expr.chars, Word.CharClass.of c = .plain :=
    List.forall_mem_cons.mpr ⟨by decide, (sound_name p.expr).2⟩
  exact forall_mem_target _ p hspelling (sound_name p.expr)
    (Word.sound_append _ _ hspelling hcolon)

theorem sound_action (p : ActionPhrase) : ∀ w ∈ p.words, w.Sound := by
  have hverb : Sound (.text p.spelling.1) := by
    rcases p with ⟨verb, spelling, -, -, -, -, -, -, -⟩
    cases verb with
    | set => exact sound_spelling "SET" spelling (by decide) (by decide)
    | delete => exact sound_spelling "DELETE" spelling (by decide) (by decide)
  have hfilter : Sound (.text p.filterWord) := by
    rw [ActionPhrase.filterWord]
    split
    · rename_i marker _
      exact Word.sound_append _ _ (sound_spelling "filter" marker (by decide) (by decide))
        (List.forall_mem_cons.mpr ⟨by decide, (sound_name p.filter).2⟩)
    · exact sound_name p.filter
  have hothers : ∀ keyword ∈ ["WITH", "ON", "TRANSIENT", "CALLABLE"], keyword.toList ≠ [] ∧
      (Text.lower keyword.toList).all (fun c => Word.CharClass.of c = .plain) = true := by
    decide
  exact forall_mem_action _ p trivial sound_name hverb hfilter fun keyword hkeyword s =>
    sound_spelling keyword s (hothers keyword hkeyword).1 (hothers keyword hkeyword).2

theorem sound_clauseWords (left right : Bool) (first middle last : List Char)
    (hfirst : Sound (.text first)) (hmiddle : Sound (.text middle)) (hlast : Sound (.text last)) :
    ∀ w ∈ clauseWords left right first middle last, w.Sound := by
  have hfront := Word.sound_append first middle hfirst hmiddle.2
  have hback := Word.sound_append middle last hmiddle hlast.2
  have hwhole := Word.sound_append _ last hfront hlast.2
  cases left <;> cases right
  · exact List.forall_mem_singleton.mpr hwhole
  · exact List.forall_mem_cons.mpr ⟨hfront, List.forall_mem_singleton.mpr hlast⟩
  · exact List.forall_mem_cons.mpr ⟨hfirst, List.forall_mem_singleton.mpr hback⟩
  · exact List.forall_mem_cons.mpr ⟨hfirst, List.forall_mem_cons.mpr
      ⟨hmiddle, List.forall_mem_singleton.mpr hlast⟩⟩

/-- Comparisons are written with printed characters. -/
theorem sound_symbol (symbol : List Char) (op : Comparison)
    (known : Comparison.ofSymbol? (String.ofList symbol) = some op) : Sound (.text symbol) := by
  have hsymbol : symbol.isEmpty = false ∧
      symbol.all (fun c => Word.CharClass.of c = .plain) = true := by
    rcases symbol_cases symbol op known with rfl | rfl
    · decide
    · cases op <;> decide
  exact ⟨List.isEmpty_eq_false_iff.mp hsymbol.1, fun c hc =>
    of_decide_eq_true (List.all_eq_true.mp hsymbol.2 c hc)⟩

theorem sound_object (p : ObjectPhrase) : ∀ w ∈ p.words, w.Sound := by
  cases p with
  | type spelling name left right =>
    have hspelling := sound_spelling "OBJECT_TYPE" spelling (by decide) (by decide)
    have hequal : Sound (.text ['=']) :=
      ⟨List.cons_ne_nil _ _, List.forall_mem_singleton.mpr (by decide)⟩
    exact sound_clauseWords left right _ _ _ hspelling hequal (sound_name name)
  | size spelling symbol op known digits ne decimal bound left right =>
    have hspelling := sound_spelling "OBJECT_SIZE" spelling (by decide) (by decide)
    have hdigits : Sound (.text digits) :=
      ⟨List.isEmpty_eq_false_iff.mp ne, fun c hc =>
        Word.plain_of_isDigit c (List.all_eq_true.mp decimal c hc)⟩
    exact sound_clauseWords left right _ _ _ hspelling (sound_symbol symbol op known) hdigits

theorem sound_scan (text : List Char) : ∀ w ∈ Word.scan text, w.Sound := by
  intro w hw
  cases w with
  | comma => trivial
  | text chars =>
    rcases Word.mem_of_written _ text chars (Word.written_scan text) hw with ⟨hne, hall⟩
    exact ⟨hne, fun c hc => (hall c hc).1⟩

/-! ### Sentences -/

theorem sound_sentence (s : Sentence) : ∀ w ∈ s.words, w.Sound := by
  -- Each part consists of sound words, and a part that is absent has none.
  have hleading := forall_mem_flag Sound "FOR" s.leading fun leading =>
    sound_spelling "FOR" leading (by decide) (by decide)
  have htargets := forall_mem_listed Sound s.targets TargetPhrase.words trivial fun p _ =>
    sound_target p
  have hcondition : ∀ w ∈ (s.condition.map ConditionPhrase.words).getD [], w.Sound := by
    cases s.condition with
    | none => exact List.forall_mem_nil _
    | some p =>
      exact List.forall_mem_cons.mpr
        ⟨sound_spelling "WHEN" p.spelling (by decide) (by decide), sound_scan p.text⟩
  have hactions := forall_mem_listed Sound s.actions ActionPhrase.words trivial fun p _ =>
    sound_action p
  have hobjects : ∀ w ∈ (s.objects.map ObjectsPhrase.words).getD [], w.Sound := by
    cases s.objects with
    | none => exact List.forall_mem_nil _
    | some p =>
      exact List.forall_mem_cons.mpr ⟨sound_spelling "TO" p.spelling (by decide) (by decide),
        forall_mem_listed Sound p.clauses ObjectPhrase.words trivial fun clause _ =>
          sound_object clause⟩
  exact List.forall_mem_append.mpr ⟨hleading, List.forall_mem_append.mpr
    ⟨List.forall_mem_append.mpr ⟨htargets, hcondition⟩, List.forall_mem_cons.mpr
      ⟨sound_spelling "DO" s.middle (by decide) (by decide),
        List.forall_mem_append.mpr ⟨hactions, hobjects⟩⟩⟩⟩

/-- Every sentence can be written. -/
theorem exists_written_sentence (s : Sentence) :
    ∃ text : String, Word.Written s.words text.toList := by
  rcases Word.exists_written_of_sound s.words (sound_sentence s) with ⟨text, h⟩
  exact ⟨String.ofList text, by rwa [String.toList_ofList]⟩

end Rule

end StoragePolicy
