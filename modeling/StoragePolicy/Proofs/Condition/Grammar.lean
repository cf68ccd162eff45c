import StoragePolicy.Proofs.Condition.Grouping
import StoragePolicy.Proofs.Rule.Written

/-!
# The language of conditions

The reader cuts a text into tokens and the tokens at `OR` and at `AND`. Which texts are conditions
is said here without any cut, by two relations that go from what is meant to what is written: tokens
to the texts that spell them, and alternatives of comparisons to the tokens that express them. A
text is a condition if it spells tokens that express something, and what it then says is what they
express.

A text spells its tokens without any blanks where two neighbours are of different classes, so a
token may not be followed by a character that could go on with it. That is all that is left of the
rule of the longest match.

## Main definitions

* `Condition.Allowed`: The characters of conditions.
* `Token.Spelled`: Texts that spell given tokens.
* `Condition.Expressed`: Tokens that express given alternatives of comparisons.
* `Condition.Layered`: Comparisons, several of them that all hold, or several of these.

## Theorems

* `spelled_iff`: The tokens that a text spells are those that are scanned.
* `ofTokens_iff`: What tokens express is what is read from them.
* `parse_iff_expressed`: The texts that are conditions, and what they say.
-/

namespace StoragePolicy

namespace Condition

/-! ### Texts and tokens -/

/-- The characters of conditions: blanks, those of operators and those of words. -/
def Allowed (c : Char) : Prop :=
  Text.isBlank c = true ∨ c ∈ ['<', '>', '=', '!'] ∨
    Text.isAlphanumeric c = true ∨ c ∈ ['_', '.', '-', '+']

theorem allowed_iff (c : Char) : Allowed c ↔ CharClass.of c ≠ .foreign := by
  simp only [CharClass.of, Allowed, Bool.or_eq_true, decide_eq_true_eq, List.mem_cons,
    List.not_mem_nil, or_false]
  split
  · simp_all
  · split
    · simp_all [or_assoc]
    · split
      · simp_all
        tauto
      · simp_all

/-- Texts that spell given tokens. Blanks may stand anywhere but inside a token, and a token ends
    where no character follows that could be part of it. -/
inductive Token.Spelled : List Token → List Char → Prop
  | nil : Spelled [] []
  | blank (c : Char) (tokens : List Token) (text : List Char) (hc : CharClass.of c = .blank)
      (h : Spelled tokens text) : Spelled tokens (c :: text)
  | token (t : Token) (tokens : List Token) (rest : List Char) (ht : t.Proper)
      (hrest : ∀ c ∈ rest.head?, CharClass.of c ≠ t.kind) (h : Spelled tokens rest) :
      Spelled (t :: tokens) (t.chars ++ rest)

namespace Token

/-- A text that spells tokens has no foreign characters, and its tokens are found in it. -/
theorem tokens_of_spelled (tokens : List Token) (text : List Char) (h : Spelled tokens text) :
    Rule.tokens text = tokens ∧ ∀ c ∈ text, CharClass.of c ≠ .foreign := by
  induction h with
  | nil => exact ⟨rfl, fun c hc => absurd hc List.not_mem_nil⟩
  | blank c tokens text hc h ih =>
    refine ⟨by rw [Rule.tokens_blank c text hc, ih.1], List.forall_mem_cons.mpr ⟨?_, ih.2⟩⟩
    rw [hc]
    exact nofun
  | token t tokens rest ht hrest h ih =>
    refine ⟨?_, fun c hc => ?_⟩
    · rw [Rule.tokens, Text.runs_append CharClass.of t.kind t.chars rest ht.1 ht.2 hrest,
        List.filterMap_cons, ofRun?_chars, ← Rule.tokens, ih.1]
    · rcases List.mem_append.mp hc with hc | hc
      · rw [ht.2 c hc]
        exact (kind_ne_blank t).2
      · exact ih.2 c hc

/-- There are tokens of any characters of either class. -/
theorem exists_of_class (k : CharClass) (hblank : k ≠ .blank) (hforeign : k ≠ .foreign)
    (chars : List Char) : ∃ t : Token, t.kind = k ∧ t.chars = chars := by
  cases k with
  | blank => exact absurd rfl hblank
  | foreign => exact absurd rfl hforeign
  | word => exact ⟨.word chars, rfl, rfl⟩
  | operator => exact ⟨.operator chars, rfl, rfl⟩

/-- A character put before a text that spells tokens becomes a token or part of the first one. -/
theorem exists_spelled_cons (c : Char) (hblank : CharClass.of c ≠ .blank)
    (hforeign : CharClass.of c ≠ .foreign) (tokens : List Token) (rest : List Char)
    (h : Spelled tokens rest) : ∃ tokens', Spelled tokens' (c :: rest) := by
  have halone : (∀ d ∈ rest.head?, CharClass.of d ≠ CharClass.of c) →
      ∃ tokens', Spelled tokens' (c :: rest) := by
    intro hrest
    rcases exists_of_class _ hblank hforeign [c] with ⟨t, hkind, hchars⟩
    have hproper : t.Proper := by simp [Proper, hchars, hkind]
    have hspelled := Spelled.token t tokens rest hproper (by rwa [hkind]) h
    rw [hchars] at hspelled
    exact ⟨_, hspelled⟩
  -- Only a token of its own class takes the character; before anything else it stands alone.
  cases h with
  | nil => exact halone (by simp)
  | blank d tokens text hd h' =>
    refine halone fun d' hd' => ?_
    cases hd'
    rw [hd]
    exact hblank.symm
  | token t tokens rest ht hrest h' =>
    by_cases hsame : t.kind = CharClass.of c
    · rcases exists_of_class _ hblank hforeign (c :: t.chars) with ⟨longer, hkind, hchars⟩
      have hproper : longer.Proper := by
        refine ⟨by simp [hchars], fun d hd => ?_⟩
        rw [hchars] at hd
        rcases List.mem_cons.mp hd with rfl | hd
        · exact hkind.symm
        · rw [ht.2 d hd, hsame, hkind]
      have hspelled := Spelled.token longer tokens rest hproper (by rwa [hkind, ← hsame]) h'
      rw [hchars, List.cons_append] at hspelled
      exact ⟨_, hspelled⟩
    · refine halone fun d hd => ?_
      have hmem : d ∈ t.chars := by
        cases hchars : t.chars with
        | nil => exact absurd hchars ht.1
        | cons e more =>
          rw [hchars] at hd
          cases hd
          exact List.mem_cons_self
      rw [ht.2 d hmem]
      exact hsame

theorem exists_spelled (text : List Char) (h : ∀ c ∈ text, CharClass.of c ≠ .foreign) :
    ∃ tokens, Spelled tokens text := by
  induction text with
  | nil => exact ⟨[], .nil⟩
  | cons c rest ih =>
    rcases ih fun d hd => h d (List.mem_cons_of_mem c hd) with ⟨tokens, hspelled⟩
    by_cases hc : CharClass.of c = .blank
    · exact ⟨tokens, .blank c tokens rest hc hspelled⟩
    · exact exists_spelled_cons c hc (h c List.mem_cons_self) tokens rest hspelled

/-- The tokens that a text spells are those that are scanned. -/
theorem spelled_iff (tokens : List Token) (text : List Char) :
    Spelled tokens text ↔ scan text = .ok tokens := by
  constructor
  · intro h
    rcases tokens_of_spelled tokens text h with ⟨htokens, hforeign⟩
    rw [Rule.scan_eq_tokens text hforeign, htokens]
  · intro h
    -- A text with a foreign character is refused at the first of them.
    have hforeign : ∀ c ∈ text, CharClass.of c ≠ .foreign := by
      intro c hc hclass
      cases hfind : text.find? (fun d => CharClass.of d = .foreign) with
      | none => exact absurd hclass (by simpa using List.find?_eq_none.mp hfind c hc)
      | some d =>
        rw [scan, hfind] at h
        cases h
    rcases exists_spelled text hforeign with ⟨spelled, hspelled⟩
    rw [Rule.scan_eq_tokens text hforeign, (tokens_of_spelled spelled text hspelled).1] at h
    cases h
    exact hspelled

end Token

/-! ### Tokens and what they express -/

/-- Pieces with a joining word between them, which may be spelled in any case. -/
inductive Joined (keyword : String) : List (List Token) → List Token → Prop
  | single (piece : List Token) : Joined keyword [piece] piece
  | cons (piece : List Token) (rest : List (List Token)) (tokens : List Token)
      (spelling : List Char) (hspelling : Text.isKeyword keyword spelling = true)
      (h : Joined keyword rest tokens) :
      Joined keyword (piece :: rest) (piece ++ .word spelling :: tokens)

/-- Tokens that express a comparison: a word that does not join, an operator and a number. -/
inductive Clause : Atom → List Token → Prop
  | mk (metric symbol number : List Char) (op : Comparison) (threshold : Float)
      (hand : Text.isKeyword "AND" metric = false) (hor : Text.isKeyword "OR" metric = false)
      (hop : Comparison.ofSymbol? (String.ofList symbol) = some op)
      (hnumber : Number.readDouble number = some threshold) :
      Clause ⟨String.ofList metric, op, threshold⟩
        [.word metric, .operator symbol, .word number]

/-- Tokens that express comparisons of which all have to hold. -/
def Group (atoms : List Atom) (tokens : List Token) : Prop :=
  ∃ clauses, List.Forall₂ Clause atoms clauses ∧ Joined "AND" clauses tokens

/-- Tokens that express alternatives of comparisons. -/
def Expressed (alternatives : List (List Atom)) (tokens : List Token) : Prop :=
  ∃ groups, List.Forall₂ Group alternatives groups ∧ Joined "OR" groups tokens

/-- Pieces are joined to what is cut into them. -/
theorem joined_splitWhere (keyword : String) (tokens : List Token) :
    Joined keyword (Text.splitWhere (Token.isKeyword keyword) tokens) tokens := by
  induction tokens with
  | nil => exact .single []
  | cons t rest ih =>
    rw [Text.splitWhere]
    by_cases ht : t.isKeyword keyword = true
    · rw [if_pos ht]
      cases t with
      | operator symbol => cases ht
      | word spelling => exact .cons [] _ rest spelling ht ih
    · rw [if_neg ht]
      generalize Text.splitWhere (Token.isKeyword keyword) rest = pieces at ih
      cases ih with
      | single => exact .single (t :: rest)
      | cons piece pieces tokens spelling hspelling h =>
        exact .cons (t :: piece) pieces tokens spelling hspelling h

/-- What pieces are joined to is cut into them, if the joining word stands in none of them. -/
theorem splitWhere_joined (keyword : String) (pieces : List (List Token)) (tokens : List Token)
    (h : Joined keyword pieces tokens)
    (hpieces : ∀ piece ∈ pieces, ∀ t ∈ piece, t.isKeyword keyword = false) :
    Text.splitWhere (Token.isKeyword keyword) tokens = pieces := by
  induction h with
  | single piece => exact Text.splitWhere_of_none _ piece (hpieces piece List.mem_cons_self)
  | cons piece rest tokens spelling hspelling h ih =>
    rw [Text.splitWhere_append _ piece tokens (.word spelling)
      (hpieces piece List.mem_cons_self) hspelling,
      ih fun other hother => hpieces other (List.mem_cons_of_mem piece hother)]

theorem mem_of_joined (keyword : String) (pieces : List (List Token)) (tokens : List Token)
    (h : Joined keyword pieces tokens) (t : Token) (ht : t ∈ tokens) :
    t.isKeyword keyword = true ∨ ∃ piece ∈ pieces, t ∈ piece := by
  induction h with
  | single piece => exact Or.inr ⟨piece, List.mem_cons_self, ht⟩
  | cons piece rest tokens spelling hspelling h ih =>
    rcases List.mem_append.mp ht with ht | ht
    · exact Or.inr ⟨piece, List.mem_cons_self, ht⟩
    · rcases List.mem_cons.mp ht with rfl | ht
      · exact Or.inl hspelling
      · rcases ih ht with hkeyword | ⟨other, hother, hmem⟩
        · exact Or.inl hkeyword
        · exact Or.inr ⟨other, List.mem_cons_of_mem piece hother, hmem⟩

/-! ### Reading what is expressed -/

theorem exists_of_mem_forall₂ {α β : Type} {R : α → β → Prop} {as : List α} {bs : List β}
    (h : List.Forall₂ R as bs) (b : β) (hb : b ∈ bs) : ∃ a, R a b := by
  induction h with
  | nil => exact absurd hb List.not_mem_nil
  | @cons a b' rest others hfirst hrest ih =>
    rcases List.mem_cons.mp hb with rfl | hb
    · exact ⟨a, hfirst⟩
    · exact ih hb

/-- No joining word stands in a comparison: its number would not be read. -/
theorem isKeyword_of_clause (a : Atom) (tokens : List Token) (h : Clause a tokens) (t : Token)
    (ht : t ∈ tokens) : t.isKeyword "AND" = false ∧ t.isKeyword "OR" = false := by
  cases h with
  | mk metric symbol number op threshold hand hor hop hnumber =>
    simp only [List.mem_cons, List.not_mem_nil, or_false] at ht
    rcases ht with rfl | rfl | rfl
    · exact ⟨hand, hor⟩
    · exact ⟨rfl, rfl⟩
    · exact ⟨Number.isKeyword_of_readDouble number threshold "AND" hnumber (Or.inl rfl),
        Number.isKeyword_of_readDouble number threshold "OR" hnumber (Or.inr rfl)⟩

/-- A joining word of the other kind is none of this kind. -/
theorem isKeyword_or_of_and (t : Token) (h : t.isKeyword "AND" = true) :
    t.isKeyword "OR" = false := by
  cases t with
  | operator symbol => rfl
  | word spelling =>
    simp only [Token.isKeyword, Text.isKeyword, Text.sameLetters, decide_eq_true_eq] at h
    simp only [Token.isKeyword, Text.isKeyword, Text.sameLetters, h]
    decide

theorem isKeyword_of_group (atoms : List Atom) (tokens : List Token) (h : Group atoms tokens)
    (t : Token) (ht : t ∈ tokens) : t.isKeyword "OR" = false := by
  rcases h with ⟨clauses, hclauses, hjoined⟩
  rcases mem_of_joined "AND" clauses tokens hjoined t ht with ht | ⟨clause, hclause, ht⟩
  · exact isKeyword_or_of_and t ht
  · rcases exists_of_mem_forall₂ hclauses clause hclause with ⟨a, ha⟩
    exact (isKeyword_of_clause a clause ha t ht).2

/-- Of tokens among which nothing joins, a comparison is read if they express it. -/
theorem readComparison_iff (tokens : List Token)
    (hfree : ∀ t ∈ tokens, t.isKeyword "AND" = false ∧ t.isKeyword "OR" = false) (c : Condition) :
    readComparison tokens = .ok c ↔ ∃ a, Clause a tokens ∧ c = a.condition := by
  constructor
  · intro h
    unfold readComparison at h
    split at h
    · rename_i metric symbol number
      split at h
      · cases h
      · rename_i op hop
        split at h
        · cases h
        · rename_i threshold hnumber
          cases h
          -- Neither join can be the name of the metric, since they are excluded among the tokens.
          have hmetric := hfree (.word metric) List.mem_cons_self
          exact ⟨_, .mk metric symbol number op threshold hmetric.1 hmetric.2 hop hnumber, rfl⟩
    · cases h
    · cases h
  · rintro ⟨a, hclause, rfl⟩
    cases hclause with
    | mk metric symbol number op threshold hand hor hop hnumber =>
      simp only [readComparison, hop, hnumber, Atom.condition]

/-- Of tokens among which no `OR` stands, what they express is read. -/
theorem readAlternative_iff (tokens : List Token)
    (hfree : ∀ t ∈ tokens, t.isKeyword "OR" = false) (c : Condition) :
    readAlternative tokens = .ok c ↔
      ∃ atoms, Group atoms tokens ∧ c = join .all (atoms.map Atom.condition) := by
  have hpieces := Text.of_mem_splitWhere (Token.isKeyword "AND") tokens
  have hread := Outcome.mapM_eq_ok_map readComparison Clause Atom.condition
    (Text.splitWhere (Token.isKeyword "AND") tokens) fun clause hclause =>
      readComparison_iff clause fun t ht =>
        ⟨(hpieces clause hclause t ht).1, hfree t (hpieces clause hclause t ht).2⟩
  rw [readAlternative, Outcome.map_eq_ok]
  constructor
  · rintro ⟨conditions, hconditions, rfl⟩
    rcases (hread conditions).mp hconditions with ⟨atoms, hatoms, rfl⟩
    exact ⟨atoms, ⟨_, hatoms, joined_splitWhere "AND" tokens⟩, rfl⟩
  · rintro ⟨atoms, ⟨clauses, hclauses, hjoined⟩, rfl⟩
    -- No clause holds the word that joins them, so that they are cut where they were joined.
    have hcut := splitWhere_joined "AND" clauses tokens hjoined fun clause hclause t ht => by
      rcases exists_of_mem_forall₂ hclauses clause hclause with ⟨a, ha⟩
      exact (isKeyword_of_clause a clause ha t ht).1
    exact ⟨_, (hread _).mpr ⟨atoms, hcut ▸ hclauses, rfl⟩, rfl⟩

theorem ofTokens_eq_ok (tokens : List Token) (c : Condition) :
    ofTokens tokens = .ok c ↔
      ((Text.splitWhere (Token.isKeyword "OR") tokens).mapM readAlternative).map (join .any) =
        .ok c := by
  cases tokens with
  | nil => exact ⟨fun h => (by cases h), fun h => (by cases h)⟩
  | cons t rest => exact Iff.rfl

/-- What tokens express is what is read from them. -/
theorem ofTokens_iff (tokens : List Token) (c : Condition) :
    ofTokens tokens = .ok c ↔ ∃ alternatives, Expressed alternatives tokens ∧
      c = ofAtoms alternatives := by
  have hpieces := Text.of_mem_splitWhere (Token.isKeyword "OR") tokens
  have hread := Outcome.mapM_eq_ok_map readAlternative Group
    (fun atoms => join .all (atoms.map Atom.condition))
    (Text.splitWhere (Token.isKeyword "OR") tokens) fun group hgroup =>
      readAlternative_iff group fun t ht => (hpieces group hgroup t ht).1
  rw [ofTokens_eq_ok, Outcome.map_eq_ok]
  constructor
  · rintro ⟨conditions, hconditions, rfl⟩
    rcases (hread conditions).mp hconditions with ⟨alternatives, halternatives, rfl⟩
    exact ⟨alternatives, ⟨_, halternatives, joined_splitWhere "OR" tokens⟩, rfl⟩
  · rintro ⟨alternatives, ⟨groups, hgroups, hjoined⟩, rfl⟩
    have hcut := splitWhere_joined "OR" groups tokens hjoined fun group hgroup t ht => by
      rcases exists_of_mem_forall₂ hgroups group hgroup with ⟨atoms, hatoms⟩
      exact isKeyword_of_group atoms group hatoms t ht
    exact ⟨_, (hread _).mpr ⟨alternatives, hcut ▸ hgroups, rfl⟩, rfl⟩

/-! ### What is read -/

/-- A comparison holds on known values: its metric has a value that stands in its relation to the
    threshold. -/
def Atom.Met (values : MetricValues) (a : Atom) : Prop :=
  ∃ actual, values.get? a.metric = some actual ∧ a.op.compare actual a.threshold = true

theorem Atom.holds_condition_iff (values : MetricValues) (a : Atom) :
    a.condition.holds values = true ↔ a.Met values := by
  rw [Atom.condition, holds, Atom.Met]
  cases values.get? a.metric with
  | none => simp
  | some actual => simp

/-- A condition of alternatives holds when all comparisons of one of them do. -/
theorem holds_ofAtoms_iff (values : MetricValues) (alternatives : List (List Atom)) :
    (ofAtoms alternatives).holds values = true ↔
      ∃ atoms ∈ alternatives, ∀ a ∈ atoms, a.Met values := by
  simp only [holds_ofAtoms_eq_any, List.any_eq_true, List.all_eq_true, Atom.holds_condition_iff]

/-- Comparisons, and "all" of at least two. -/
inductive Layered.Inner : Condition → Prop
  | compare (a : Atom) : Inner a.condition
  | all (atoms : List Atom) (h : 2 ≤ atoms.length) : Inner (.all (atoms.map Atom.condition))

/-- Comparisons, "all" of at least two of them, and "any" of at least two of these. -/
inductive Layered : Condition → Prop
  | inner (c : Condition) (h : Layered.Inner c) : Layered c
  | any (conditions : List Condition) (hlength : 2 ≤ conditions.length)
      (h : ∀ c ∈ conditions, Layered.Inner c) : Layered (.any conditions)

/-- Of at least one item there is either one or two and more. -/
theorem join_cases (wrap : List Condition → Condition) (conditions : List Condition)
    (hne : conditions ≠ []) :
    (∃ c, conditions = [c] ∧ join wrap conditions = c) ∨
      2 ≤ conditions.length ∧ join wrap conditions = wrap conditions := by
  cases conditions with
  | nil => exact absurd rfl hne
  | cons c rest =>
    cases rest with
    | nil => exact Or.inl ⟨c, rfl, rfl⟩
    | cons next more => exact Or.inr ⟨by simp, rfl⟩

theorem inner_join (atoms : List Atom) (hne : atoms ≠ []) :
    Layered.Inner (join .all (atoms.map Atom.condition)) := by
  rcases join_cases .all (atoms.map Atom.condition) (by simpa using hne) with
    ⟨c, hone, hjoin⟩ | ⟨hlength, hjoin⟩
  · rcases List.map_eq_singleton_iff.mp hone with ⟨a, -, rfl⟩
    rw [hjoin]
    exact .compare a
  · rw [hjoin]
    exact .all atoms (by simpa using hlength)

theorem layered_of_isRead (c : Condition) (h : IsRead c) : Layered c := by
  rcases h with ⟨alternatives, hne, hproper, rfl⟩
  have hinner : ∀ c ∈ alternatives.map (fun atoms => join .all (atoms.map Atom.condition)),
      Layered.Inner c := by
    intro c hc
    rcases List.mem_map.mp hc with ⟨atoms, hatoms, rfl⟩
    exact inner_join atoms (hproper atoms hatoms).1
  rcases join_cases .any (alternatives.map fun atoms => join .all (atoms.map Atom.condition))
    (by simpa using hne) with ⟨c, hone, hjoin⟩ | ⟨hlength, hjoin⟩
  · rw [ofAtoms, hjoin]
    exact .inner c (hinner c (by rw [hone]; exact List.mem_cons_self))
  · rw [ofAtoms, hjoin]
    exact .any _ hlength hinner

/-- What is read of a text is what the tokens express that it spells. -/
theorem parse_iff (text : String) (c : Condition) :
    parse text = .ok c ↔ ∃ tokens alternatives, Token.Spelled tokens text.toList ∧
      Expressed alternatives tokens ∧ c = ofAtoms alternatives := by
  rw [parse]
  constructor
  · intro h
    split at h
    · cases h
    · rename_i tokens hscan
      rcases (ofTokens_iff tokens c).mp h with ⟨alternatives, hexpressed, rfl⟩
      exact ⟨tokens, alternatives, (Token.spelled_iff _ _).mpr hscan, hexpressed, rfl⟩
  · rintro ⟨tokens, alternatives, hspelled, hexpressed, rfl⟩
    rw [(Token.spelled_iff _ _).mp hspelled]
    exact (ofTokens_iff tokens _).mpr ⟨alternatives, hexpressed, rfl⟩

/-- A text is a condition exactly if it consists of characters of conditions and its tokens express
    alternatives of comparisons. What is read is then a comparison, at least two that all hold, or
    at least two alternatives of these, and it holds, on any values of the metrics, exactly when in
    one of the alternatives every metric has a value for which its comparison holds. -/
theorem parse_iff_expressed (text : String) :
    ((∃ c, parse text = .ok c) ↔
      (∀ c ∈ text.toList, Allowed c) ∧ ∃ tokens alternatives,
        Token.Spelled tokens text.toList ∧ Expressed alternatives tokens) ∧
      ∀ c, parse text = .ok c → Layered c ∧
        ∀ tokens alternatives, Token.Spelled tokens text.toList →
          Expressed alternatives tokens → ∀ values,
            c.holds values = true ↔ ∃ atoms ∈ alternatives, ∀ a ∈ atoms, a.Met values := by
  refine ⟨⟨?_, ?_⟩, fun c hc => ⟨layered_of_isRead c (isRead_of_parse text c hc), ?_⟩⟩
  · rintro ⟨c, hc⟩
    rcases (parse_iff text c).mp hc with ⟨tokens, alternatives, hspelled, hexpressed, -⟩
    have hforeign := (Token.tokens_of_spelled tokens text.toList hspelled).2
    exact ⟨fun d hd => (allowed_iff d).mpr (hforeign d hd),
      tokens, alternatives, hspelled, hexpressed⟩
  · rintro ⟨-, tokens, alternatives, hspelled, hexpressed⟩
    exact ⟨_, (parse_iff text _).mpr ⟨tokens, alternatives, hspelled, hexpressed, rfl⟩⟩
  · intro tokens alternatives hspelled hexpressed values
    rw [(parse_iff text _).mpr ⟨tokens, alternatives, hspelled, hexpressed, rfl⟩] at hc
    cases hc
    exact holds_ofAtoms_iff values alternatives

/-- Two comparisons joined by a word in mixed case, with no blanks around the operators, or a
    third one with a number that has no digits. -/
theorem parse_iff_expressed_compact :
    ∃ (c : Condition) (alternatives : List (List Atom)),
      parse "put_bw>=1e2 aNd get_ops<.5 oR c =NAN" = .ok c ∧ Layered c ∧
      alternatives.map (fun atoms => atoms.map Atom.metric) = [["put_bw", "get_ops"], ["c"]] ∧
      ∀ values, c.holds values = true ↔ ∃ atoms ∈ alternatives, ∀ a ∈ atoms, a.Met values := by
  -- The three numbers are read by evaluation, but their values are not needed.
  have hnumber : ∀ number : String, (Number.readDouble number.toList).isSome = true →
      ∃ x, Number.readDouble number.toList = some x :=
    fun number h => Option.isSome_iff_exists.mp h
  rcases hnumber "1e2" (by decide +kernel) with ⟨x, hx⟩
  rcases hnumber ".5" (by decide +kernel) with ⟨y, hy⟩
  rcases hnumber "NAN" (by decide +kernel) with ⟨z, hz⟩
  have hspelled : Token.Spelled [.word "put_bw".toList, .operator ">=".toList, .word "1e2".toList,
      .word "aNd".toList, .word "get_ops".toList, .operator "<".toList, .word ".5".toList,
      .word "oR".toList, .word "c".toList, .operator "=".toList, .word "NAN".toList]
      "put_bw>=1e2 aNd get_ops<.5 oR c =NAN".toList :=
    (Token.spelled_iff _ _).mpr (by decide +kernel)
  have hfirst : Group [⟨"put_bw", .greaterOrEqual, x⟩, ⟨"get_ops", .lessThan, y⟩] _ :=
    ⟨_, .cons (.mk "put_bw".toList ">=".toList "1e2".toList _ x (by decide) (by decide)
        (by decide) hx)
      (.cons (.mk "get_ops".toList "<".toList ".5".toList _ y (by decide) (by decide)
        (by decide) hy) .nil),
      .cons _ _ _ "aNd".toList (by decide) (.single _)⟩
  have hsecond : Group [⟨"c", .equals, z⟩] _ :=
    ⟨_, .cons (.mk "c".toList "=".toList "NAN".toList _ z (by decide) (by decide)
      (by decide) hz) .nil, .single _⟩
  have hexpressed : Expressed
      [[⟨"put_bw", .greaterOrEqual, x⟩, ⟨"get_ops", .lessThan, y⟩], [⟨"c", .equals, z⟩]] _ :=
    ⟨_, .cons hfirst (.cons hsecond .nil), .cons _ _ _ "oR".toList (by decide) (.single _)⟩
  have hparse := parse_iff_expressed "put_bw>=1e2 aNd get_ops<.5 oR c =NAN"
  have hallowed := (Token.tokens_of_spelled _ _ hspelled).2
  rcases hparse.1.mpr ⟨fun d hd => (allowed_iff d).mpr (hallowed d hd), _, _, hspelled,
    hexpressed⟩ with ⟨c, hc⟩
  rcases hparse.2 c hc with ⟨hlayered, hholds⟩
  exact ⟨c, _, hc, hlayered, rfl, hholds _ _ hspelled hexpressed⟩

end Condition

end StoragePolicy
