import StoragePolicy.Condition.Parser
import StoragePolicy.Proofs.Outcome
import StoragePolicy.Proofs.Text.Pieces
import StoragePolicy.Proofs.Number.Decimal

/-!
# Written conditions

A condition that has been read is written without any grouping, and reading what is written gives
its parts back. A condition of this kind is never deeper than two levels: alternatives of
comparisons. So it is followed here as a list of lists of comparisons, whose tokens are cut at `OR`
and then at `AND`.

## Main definitions

* `Condition.Atom`: A comparison on its own.
* `Condition.ofAtoms`: The condition with given alternatives of comparisons.
* `Condition.IsRead`: The conditions that the reader gives.
* `Token.render`: Tokens as a text, with one blank between them.

## Theorems

* `scan_render`: Rendered tokens are scanned.
* `isRead_of_parse`: What has been read is made of comparisons as the reader makes them.
* `parse_text`: What is written of such a condition is read, with its numbers read anew.
-/

namespace StoragePolicy

namespace Condition

/-! ### Rendered tokens -/

/-- The characters of a token. -/
def Token.chars : Token → List Char
  | .word text | .operator text => text

/-- The class of the characters of a token. -/
def Token.kind : Token → CharClass
  | .word _ => .word
  | .operator _ => .operator

/-- Tokens of at least one character whose characters are all of the class of the token. -/
def Token.Proper (t : Token) : Prop := t.chars ≠ [] ∧ ∀ c ∈ t.chars, CharClass.of c = t.kind

/-- Tokens as a text, with one blank between them. -/
def Token.render : List Token → List Char
  | [] => []
  | [t] => t.chars
  | t :: rest => t.chars ++ ' ' :: render rest

namespace Token

theorem render_cons (t : Token) (rest : List Token) (h : rest ≠ []) :
    render (t :: rest) = t.chars ++ ' ' :: render rest := by
  cases rest with
  | nil => exact absurd rfl h
  | cons t' more => rfl

theorem render_append (first second : List Token) (hfirst : first ≠ []) (hsecond : second ≠ []) :
    render (first ++ second) = render first ++ ' ' :: render second := by
  induction first with
  | nil => exact absurd rfl hfirst
  | cons t rest ih =>
    cases rest with
    | nil => exact render_cons t second hsecond
    | cons t' more =>
      rw [List.cons_append, render_cons t _ (by simp), ih (List.cons_ne_nil t' more),
        render_cons t _ (List.cons_ne_nil t' more), List.append_assoc, List.cons_append]

theorem kind_ne_blank (t : Token) : t.kind ≠ .blank ∧ t.kind ≠ .foreign := by
  cases t <;> exact ⟨by simp [kind], by simp [kind]⟩

theorem ofRun?_chars (t : Token) : ofRun? (t.kind, t.chars) = some t := by
  cases t <;> rfl

theorem class_blank : CharClass.of ' ' = .blank := by decide

theorem proper_of_all (t : Token) (hne : t.chars ≠ [])
    (hall : t.chars.all (fun c => CharClass.of c = t.kind) = true) : t.Proper :=
  ⟨hne, fun c hc => of_decide_eq_true (List.all_eq_true.mp hall c hc)⟩

/-- What is rendered begins as its first token does. -/
theorem head?_render (t : Token) (rest : List Token) (ht : t.Proper) :
    (render (t :: rest)).head? = t.chars.head? := by
  cases hchars : t.chars with
  | nil => exact absurd hchars ht.1
  | cons c cs =>
    cases rest with
    | nil => rw [render, hchars]
    | cons t' more => rw [render_cons t _ (by simp), hchars, List.cons_append]; rfl

theorem runs_render (tokens : List Token) (h : ∀ t ∈ tokens, t.Proper) :
    (Text.runs CharClass.of (render tokens)).filterMap ofRun? = tokens ∧
      ∀ c ∈ render tokens, CharClass.of c ≠ .foreign := by
  induction tokens with
  | nil => exact ⟨rfl, fun c hc => absurd hc List.not_mem_nil⟩
  | cons t rest ih =>
    have ht := h t List.mem_cons_self
    have hforeign : ∀ c ∈ t.chars, CharClass.of c ≠ .foreign := by
      intro c hc
      rw [ht.2 c hc]
      exact (kind_ne_blank t).2
    rcases ih fun t' ht' => h t' (List.mem_cons_of_mem t ht') with ⟨hrest, hrestForeign⟩
    cases rest with
    | nil =>
      have hruns := Text.runs_append CharClass.of t.kind t.chars [] ht.1 ht.2 (by simp)
      rw [List.append_nil] at hruns
      refine ⟨?_, hforeign⟩
      rw [render, hruns, List.filterMap_cons, ofRun?_chars]
      rfl
    | cons t' more =>
      have ht' := h t' (List.mem_cons_of_mem t List.mem_cons_self)
      rw [render_cons t _ (List.cons_ne_nil t' more)]
      refine ⟨?_, ?_⟩
      · -- The blank is a run of its own, since a token begins behind it.
        have hhead : ∀ c ∈ (render (t' :: more)).head?, CharClass.of c ≠ .blank := by
          intro c hc
          rw [head?_render t' more ht'] at hc
          rw [ht'.2 c (List.mem_of_mem_head? hc)]
          exact (kind_ne_blank t').1
        have hblank := Text.runs_append CharClass.of .blank [' '] (render (t' :: more)) (by simp)
          (by simp [class_blank]) hhead
        rw [Text.runs_append CharClass.of t.kind t.chars _ ht.1 ht.2, List.filterMap_cons,
          ofRun?_chars]
        · rw [List.singleton_append] at hblank
          rw [hblank]
          dsimp only
          rw [List.filterMap_cons]
          simp only [ofRun?, hrest]
        · intro c hc
          cases hc
          rw [class_blank]
          exact (kind_ne_blank t).1.symm
      · intro c hc
        rcases List.mem_append.mp hc with hc | hc
        · exact hforeign c hc
        · rcases List.mem_cons.mp hc with rfl | hc
          · rw [class_blank]
            simp
          · exact hrestForeign c hc

/-- Rendered tokens are scanned. -/
theorem scan_render (tokens : List Token) (h : ∀ t ∈ tokens, t.Proper) :
    scan (render tokens) = .ok tokens := by
  rcases runs_render tokens h with ⟨hruns, hforeign⟩
  have hfind : (render tokens).find? (fun c => CharClass.of c = .foreign) = none := by
    rw [List.find?_eq_none]
    intro c hc
    simpa using hforeign c hc
  rw [scan, hfind, hruns]

/-- The words that the scanner gives are proper. -/
theorem proper_of_scan (text : List Char) (tokens : List Token) (h : scan text = .ok tokens)
    (t : Token) (ht : t ∈ tokens) : t.Proper := by
  rw [scan] at h
  split at h
  · exact nomatch h
  · cases h
    rcases List.mem_filterMap.mp ht with ⟨run, hrun, hof⟩
    have hspec := Text.of_mem_runs CharClass.of text run hrun
    rcases run with ⟨k, chars⟩
    cases k with
    | word =>
      cases hof
      exact ⟨hspec.1, fun c hc => (hspec.2 c hc).1⟩
    | operator =>
      cases hof
      exact ⟨hspec.1, fun c hc => (hspec.2 c hc).1⟩
    | blank => exact nomatch hof
    | foreign => exact nomatch hof

end Token

/-! ### Conditions as lists of comparisons -/

/-- A comparison on its own. -/
structure Atom where
  metric : String
  op : Comparison
  threshold : Float

/-- A comparison as a condition. -/
def Atom.condition (a : Atom) : Condition := .compare a.metric a.op a.threshold

/-- The tokens of a comparison. -/
def Atom.tokens (a : Atom) : List Token :=
  [.word a.metric.toList, .operator a.op.symbol.toList,
   .word (Number.writeDouble a.threshold).toList]

/-- Comparisons whose metric is a word, and none that joins. -/
structure Atom.Proper (a : Atom) : Prop where
  word : Token.Proper (.word a.metric.toList)
  notAnd : Text.isKeyword "AND" a.metric.toList = false
  notOr : Text.isKeyword "OR" a.metric.toList = false

/-- The condition with the given alternatives, each of them given by its comparisons. -/
def ofAtoms (alternatives : List (List Atom)) : Condition :=
  join .any (alternatives.map fun atoms => join .all (atoms.map Atom.condition))

/-- The conditions that the reader gives: at least one alternative, each of at least one
    comparison. -/
def IsRead (c : Condition) : Prop :=
  ∃ alternatives, alternatives ≠ [] ∧
    (∀ atoms ∈ alternatives, atoms ≠ [] ∧ ∀ a ∈ atoms, a.Proper) ∧ c = ofAtoms alternatives

/-- Token lists with a joining word between them. -/
def separated (keyword : String) : List (List Token) → List Token
  | [] => []
  | [piece] => piece
  | piece :: rest => piece ++ .word keyword.toList :: separated keyword rest

/-- The tokens of alternatives of comparisons. -/
def tokensOf (alternatives : List (List Atom)) : List Token :=
  separated "OR" (alternatives.map fun atoms => separated "AND" (atoms.map Atom.tokens))

theorem separated_cons (keyword : String) (piece : List Token) (rest : List (List Token))
    (h : rest ≠ []) : separated keyword (piece :: rest) =
      piece ++ .word keyword.toList :: separated keyword rest := by
  cases rest with
  | nil => exact absurd rfl h
  | cons next more => rfl

theorem separated_ne_nil (keyword : String) (pieces : List (List Token)) (hne : pieces ≠ [])
    (h : ∀ piece ∈ pieces, piece ≠ []) : separated keyword pieces ≠ [] := by
  cases pieces with
  | nil => exact absurd rfl hne
  | cons piece rest =>
    cases rest with
    | nil => exact h piece List.mem_cons_self
    | cons next more =>
      rw [separated_cons keyword piece _ (List.cons_ne_nil next more)]
      simp

theorem mem_separated (keyword : String) (pieces : List (List Token)) (t : Token)
    (h : t ∈ separated keyword pieces) :
    t = .word keyword.toList ∨ ∃ piece ∈ pieces, t ∈ piece := by
  induction pieces with
  | nil => exact absurd h List.not_mem_nil
  | cons piece rest ih =>
    cases rest with
    | nil => exact Or.inr ⟨piece, List.mem_cons_self, h⟩
    | cons next more =>
      rw [separated_cons keyword piece _ (List.cons_ne_nil next more)] at h
      rcases List.mem_append.mp h with h | h
      · exact Or.inr ⟨piece, List.mem_cons_self, h⟩
      · rcases List.mem_cons.mp h with h | h
        · exact Or.inl h
        · rcases ih h with h | ⟨p, hp, h⟩
          · exact Or.inl h
          · exact Or.inr ⟨p, List.mem_cons_of_mem piece hp, h⟩

theorem tokensOf_ne_nil (alternatives : List (List Atom)) (hne : alternatives ≠ [])
    (h : ∀ atoms ∈ alternatives, atoms ≠ []) : tokensOf alternatives ≠ [] := by
  refine separated_ne_nil "OR" _ (by simpa using hne) fun piece hpiece => ?_
  rcases List.mem_map.mp hpiece with ⟨atoms, hatoms, rfl⟩
  refine separated_ne_nil "AND" _ (by simpa using h atoms hatoms) fun tokens htokens => ?_
  rcases List.mem_map.mp htokens with ⟨a, -, rfl⟩
  exact List.cons_ne_nil _ _

/-- Pieces in which a joining word does not stand are cut again at that word. -/
theorem splitWhere_separated (keyword : String) (pieces : List (List Token)) (hne : pieces ≠ [])
    (h : ∀ piece ∈ pieces, ∀ t ∈ piece, t.isKeyword keyword = false) :
    Text.splitWhere (Token.isKeyword keyword) (separated keyword pieces) = pieces := by
  have hkeyword : Token.isKeyword keyword (.word keyword.toList) = true := by
    simp [Token.isKeyword, Text.isKeyword, Text.sameLetters]
  induction pieces with
  | nil => exact absurd rfl hne
  | cons piece rest ih =>
    have hpiece := h piece List.mem_cons_self
    cases rest with
    | nil => exact Text.splitWhere_of_none _ piece hpiece
    | cons next more =>
      rw [separated_cons keyword piece _ (List.cons_ne_nil next more),
        Text.splitWhere_append _ piece _ _ hpiece hkeyword,
        ih (List.cons_ne_nil next more) fun p hp => h p (List.mem_cons_of_mem piece hp)]

/-! ### Writing -/

/-- Conditions joined by a word are written as their tokens joined by it. -/
theorem toList_joined (keyword : String) (conditions : List Condition)
    (pieces : List (List Token))
    (h : List.Forall₂ (fun c piece => c.text.toList = Token.render piece ∧ piece ≠ []) conditions
      pieces) :
    (joined (" " ++ keyword ++ " ") conditions).toList =
      Token.render (separated keyword pieces) := by
  induction h with
  | nil => rfl
  | @cons c piece rest others hc hrest ih =>
    cases hrest with
    | nil => exact hc.1
    | @cons c' piece' rest' others' hc' hrest' =>
      have hne : separated keyword (piece' :: others') ≠ [] := by
        cases others' with
        | nil => exact hc'.2
        | cons next more => simp [separated]
      rw [separated_cons keyword piece _ (List.cons_ne_nil piece' others'),
        Token.render_append piece _ hc.2 (List.cons_ne_nil _ _), Token.render_cons _ _ hne, ← ih,
        ← hc.1]
      simp [joined, Token.chars]

theorem text_join (wrap : List Condition → Condition) (separator : String)
    (hwrap : ∀ cs, (wrap cs).text = joined separator cs) (conditions : List Condition) :
    (join wrap conditions).text = joined separator conditions := by
  unfold join
  split
  · rfl
  · exact hwrap _

theorem toList_text_condition (a : Atom) :
    a.condition.text.toList = Token.render a.tokens := by
  simp [Atom.condition, text, Atom.tokens, Token.render, Token.chars]

/-- A condition is written as its tokens with single blanks between them. -/
theorem toList_text (alternatives : List (List Atom)) (h : ∀ atoms ∈ alternatives, atoms ≠ []) :
    (ofAtoms alternatives).text.toList = Token.render (tokensOf alternatives) := by
  have hall : ∀ atoms : List Atom, (join .all (atoms.map Atom.condition)).text.toList =
      Token.render (separated "AND" (atoms.map Atom.tokens)) := by
    intro atoms
    rw [text_join .all (" " ++ "AND" ++ " ") fun cs => by rw [text]; rfl]
    refine toList_joined "AND" _ _ ?_
    rw [List.forall₂_map_left_iff, List.forall₂_map_right_iff, List.forall₂_same]
    exact fun a _ => ⟨toList_text_condition a, by simp [Atom.tokens]⟩
  rw [ofAtoms, text_join .any (" " ++ "OR" ++ " ") fun cs => by rw [text]; rfl]
  refine toList_joined "OR" _ _ ?_
  rw [List.forall₂_map_left_iff, List.forall₂_map_right_iff, List.forall₂_same]
  intro atoms hatoms
  refine ⟨hall atoms, separated_ne_nil "AND" _ ?_ ?_⟩
  · simpa using h atoms hatoms
  · intro piece hpiece
    rcases List.mem_map.mp hpiece with ⟨a, -, rfl⟩
    exact List.cons_ne_nil _ _

/-! ### Reading -/

theorem readComparison_tokens (reread : Float → Float)
    (hread : ∀ x, Number.readDouble (Number.writeDouble x).toList = some (reread x)) (a : Atom) :
    readComparison a.tokens = .ok { a with threshold := reread a.threshold }.condition := by
  simp only [Atom.tokens, readComparison, String.ofList_toList, Comparison.ofSymbol?_symbol, hread,
    Atom.condition]

theorem readAlternative_tokens (reread : Float → Float)
    (hread : ∀ x, Number.readDouble (Number.writeDouble x).toList = some (reread x))
    (atoms : List Atom) (hne : atoms ≠ []) (hproper : ∀ a ∈ atoms, a.Proper) :
    readAlternative (separated "AND" (atoms.map Atom.tokens)) = .ok (join .all
      (atoms.map fun a => { a with threshold := reread a.threshold }.condition)) := by
  have hsplit : Text.splitWhere (Token.isKeyword "AND") (separated "AND" (atoms.map Atom.tokens)) =
      atoms.map Atom.tokens := by
    refine splitWhere_separated "AND" _ (by simpa using hne) ?_
    intro piece hpiece t ht
    rcases List.mem_map.mp hpiece with ⟨a, ha, rfl⟩
    simp only [Atom.tokens, List.mem_cons, List.not_mem_nil, or_false] at ht
    rcases ht with rfl | rfl | rfl
    · exact (hproper a ha).notAnd
    · rfl
    · exact Number.isKeyword_writeDouble _ "AND" (Or.inl rfl)
  rw [readAlternative, hsplit, Outcome.map_eq_ok]
  refine ⟨_, (Outcome.mapM_eq_ok _ _ _).mpr ?_, rfl⟩
  rw [List.forall₂_map_left_iff, List.forall₂_map_right_iff, List.forall₂_same]
  exact fun a _ => readComparison_tokens reread hread a

/-- The tokens of a condition are read as the condition, with its numbers read anew. -/
theorem ofTokens_tokensOf (reread : Float → Float)
    (hread : ∀ x, Number.readDouble (Number.writeDouble x).toList = some (reread x))
    (alternatives : List (List Atom)) (hne : alternatives ≠ [])
    (hproper : ∀ atoms ∈ alternatives, atoms ≠ [] ∧ ∀ a ∈ atoms, a.Proper) :
    ofTokens (tokensOf alternatives) = .ok (ofAtoms (alternatives.map fun atoms =>
      atoms.map fun a => { a with threshold := reread a.threshold })) := by
  have hpieces : alternatives.map (fun atoms => separated "AND" (atoms.map Atom.tokens)) ≠ [] := by
    simpa using hne
  -- No token of a comparison is the word that separates alternatives, so that the tokens are cut
  -- where the alternatives meet.
  have hsplit : Text.splitWhere (Token.isKeyword "OR") (tokensOf alternatives) =
      alternatives.map fun atoms => separated "AND" (atoms.map Atom.tokens) := by
    refine splitWhere_separated "OR" _ hpieces ?_
    intro piece hpiece t ht
    rcases List.mem_map.mp hpiece with ⟨atoms, hatoms, rfl⟩
    rcases mem_separated "AND" _ t ht with rfl | ⟨tokens, htokens, ht⟩
    · decide
    · rcases List.mem_map.mp htokens with ⟨a, ha, rfl⟩
      simp only [Atom.tokens, List.mem_cons, List.not_mem_nil, or_false] at ht
      rcases ht with rfl | rfl | rfl
      · exact ((hproper atoms hatoms).2 a ha).notOr
      · rfl
      · exact Number.isKeyword_writeDouble _ "OR" (Or.inr rfl)
  have htokens := tokensOf_ne_nil alternatives hne fun atoms hatoms => (hproper atoms hatoms).1
  rw [ofTokens, List.isEmpty_eq_false_iff.mpr htokens, if_neg (by simp), hsplit, Outcome.map_eq_ok]
  refine ⟨_, (Outcome.mapM_eq_ok _ _ _).mpr ?_, rfl⟩
  rw [List.forall₂_map_left_iff, List.map_map, List.forall₂_map_right_iff, List.forall₂_same]
  intro atoms hatoms
  rw [readAlternative_tokens reread hread atoms (hproper atoms hatoms).1 (hproper atoms hatoms).2,
    Function.comp, List.map_map]
  rfl

/-- Letters and digits are characters of words. -/
theorem CharClass.of_isAlphanum (c : Char) (hc : c.isAlphanum = true) :
    CharClass.of c = .word := by
  have hrange := Text.range_of_isAlphanum c hc
  have hblank : Text.isBlank c = false := by
    simp only [Text.isBlank, Text.inRanges, Text.blankRanges, List.any_cons, List.any_nil,
      Bool.or_false, Bool.or_eq_false_iff, Bool.and_eq_false_iff, decide_eq_false_iff_not]
    omega
  have hoperator : ¬(c = '<' ∨ c = '>' ∨ c = '=' ∨ c = '!') := by
    rintro (rfl | rfl | rfl | rfl) <;> simp at hrange
  have hword := Text.isAlphanumeric_of_isAlphanum c hc
  rw [CharClass.of, hblank, if_neg (by simp), if_neg (by simpa [or_assoc] using hoperator),
    if_pos (by simp [hword])]

theorem proper_tokens (a : Atom) (h : a.Proper) : ∀ t ∈ a.tokens, t.Proper := by
  intro t ht
  simp only [Atom.tokens, List.mem_cons, List.not_mem_nil, or_false] at ht
  rcases ht with rfl | rfl | rfl
  · exact h.word
  · cases a.op <;> exact Token.proper_of_all _ (by decide) (by decide)
  · refine ⟨Number.writeDouble_ne_nil _, fun c hc => ?_⟩
    rcases Number.mem_writeDouble _ c hc with hc | rfl | rfl
    · exact CharClass.of_isAlphanum c hc
    · exact (by decide : CharClass.of '.' = .word)
    · exact (by decide : CharClass.of '-' = .word)

/-- What is written of a condition that has been read is read, with its numbers read anew. -/
theorem parse_text (reread : Float → Float)
    (hread : ∀ x, Number.readDouble (Number.writeDouble x).toList = some (reread x))
    (alternatives : List (List Atom)) (hne : alternatives ≠ [])
    (hproper : ∀ atoms ∈ alternatives, atoms ≠ [] ∧ ∀ a ∈ atoms, a.Proper) :
    parse (ofAtoms alternatives).text = .ok (ofAtoms (alternatives.map fun atoms =>
      atoms.map fun a => { a with threshold := reread a.threshold })) := by
  have hscan : Token.scan (Token.render (tokensOf alternatives)) = .ok (tokensOf alternatives) := by
    refine Token.scan_render _ fun t ht => ?_
    rcases mem_separated "OR" _ t ht with rfl | ⟨piece, hpiece, ht⟩
    · exact Token.proper_of_all _ (by decide) (by decide)
    · rcases List.mem_map.mp hpiece with ⟨atoms, hatoms, rfl⟩
      rcases mem_separated "AND" _ t ht with rfl | ⟨tokens, htokens, ht⟩
      · exact Token.proper_of_all _ (by decide) (by decide)
      · rcases List.mem_map.mp htokens with ⟨a, ha, rfl⟩
        exact proper_tokens a ((hproper atoms hatoms).2 a ha) t ht
  rw [parse, toList_text alternatives fun atoms hatoms => (hproper atoms hatoms).1, hscan]
  exact ofTokens_tokensOf reread hread alternatives hne hproper

/-! ### What has been read -/

theorem atom_of_readComparison (tokens : List Token) (c : Condition)
    (h : readComparison tokens = .ok c) (hproper : ∀ t ∈ tokens, t.Proper)
    (hand : ∀ t ∈ tokens, t.isKeyword "AND" = false)
    (hor : ∀ t ∈ tokens, t.isKeyword "OR" = false) : ∃ a : Atom, a.Proper ∧ c = a.condition := by
  unfold readComparison at h
  split at h
  · rename_i metric symbol number
    split at h
    · exact nomatch h
    · rename_i op _
      split at h
      · exact nomatch h
      · rename_i threshold _
        cases h
        refine ⟨⟨String.ofList metric, op, threshold⟩, ⟨?_, ?_, ?_⟩, rfl⟩
        · simpa using hproper _ List.mem_cons_self
        · simpa [Token.isKeyword] using hand _ List.mem_cons_self
        · simpa [Token.isKeyword] using hor _ List.mem_cons_self
  · exact nomatch h
  · exact nomatch h

theorem atoms_of_readAlternative (tokens : List Token) (c : Condition)
    (h : readAlternative tokens = .ok c) (hproper : ∀ t ∈ tokens, t.Proper)
    (hor : ∀ t ∈ tokens, t.isKeyword "OR" = false) :
    ∃ atoms : List Atom, atoms ≠ [] ∧ (∀ a ∈ atoms, a.Proper) ∧
      c = join .all (atoms.map Atom.condition) := by
  rw [readAlternative, Outcome.map_eq_ok] at h
  rcases h with ⟨conditions, h, rfl⟩
  have hpieces := Text.of_mem_splitWhere (Token.isKeyword "AND") tokens
  -- Each piece gives one comparison.
  rcases Outcome.exists_map_of_mapM readComparison Atom.Proper Atom.condition _
    (Text.splitWhere_ne_nil _ tokens) (fun piece hpiece c' hc => atom_of_readComparison piece c' hc
      (fun t ht => hproper t (hpieces piece hpiece t ht).2)
      (fun t ht => (hpieces piece hpiece t ht).1)
      (fun t ht => hor t (hpieces piece hpiece t ht).2)) conditions h with ⟨atoms, hne, hatoms, rfl⟩
  exact ⟨atoms, hne, hatoms, rfl⟩

/-- What has been read is made of comparisons as the reader makes them. -/
theorem isRead_of_parse (text : String) (c : Condition) (h : parse text = .ok c) : IsRead c := by
  rw [parse] at h
  split at h
  · exact nomatch h
  · rename_i tokens hscan
    have hproper := Token.proper_of_scan text.toList tokens hscan
    rw [ofTokens] at h
    split at h
    · exact nomatch h
    · rw [Outcome.map_eq_ok] at h
      rcases h with ⟨conditions, h, rfl⟩
      have hpieces := Text.of_mem_splitWhere (Token.isKeyword "OR") tokens
      -- The pieces of a piece have no `OR` in them either, so each is a list of comparisons.
      rcases Outcome.exists_map_of_mapM readAlternative
        (fun atoms : List Atom => atoms ≠ [] ∧ ∀ a ∈ atoms, a.Proper)
        (fun atoms => join .all (atoms.map Atom.condition)) _ (Text.splitWhere_ne_nil _ tokens)
        (fun piece hpiece c' hc => by
          rcases atoms_of_readAlternative piece c' hc
            (fun t ht => hproper t (hpieces piece hpiece t ht).2)
            (fun t ht => (hpieces piece hpiece t ht).1) with ⟨atoms, hatoms, hall, rfl⟩
          exact ⟨atoms, ⟨hatoms, hall⟩, rfl⟩) conditions h with
        ⟨alternatives, hne, halternatives, rfl⟩
      exact ⟨alternatives, hne, halternatives, rfl⟩

/-- What is written of a condition that has been read can be read. -/
theorem parse_text_isOk (text : String) (c : Condition) (h : parse text = .ok c) :
    ∃ c', parse c.text = .ok c' := by
  rcases isRead_of_parse text c h with ⟨alternatives, hne, hproper, rfl⟩
  have hread : ∀ x, Number.readDouble (Number.writeDouble x).toList =
      some ((Number.readDouble (Number.writeDouble x).toList).getD x) := by
    intro x
    rcases Option.isSome_iff_exists.mp (Number.readDouble_isSome x) with ⟨y, hy⟩
    rw [hy]
    rfl
  exact ⟨_, parse_text _ hread alternatives hne hproper⟩

end Condition

end StoragePolicy
