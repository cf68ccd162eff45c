import StoragePolicy.Proofs.Rule.Written

/-!
# Sentences

The grammar of rules as data. A sentence is given by its parts, and every part by what is written
of it: a keyword in the case it is written in, a name as a word that is no keyword, a target in one
word or in two. So there is no sentence that is none, and what it denotes and the words it consists
of are functions of it. Where a list has to have an item, it is given with a proof that it does.

A server is denoted in small letters.

## Main definitions

* `Spelling`, `Free`, `Name`: Keywords and names as they are written.
* `TargetPhrase`, `ConditionPhrase`, `ActionPhrase`, `ObjectPhrase`: The parts of a sentence.
* `Sentence`: The sentences of the grammar.
* `Sentence.words`, `Sentence.rule`: The words of a sentence and the rule it denotes.

## Theorems

* `isKeyword_spelling`: A keyword is recognised as what it is.
* `isKeyword_of_mem`, `free_of_mem`: What is no keyword.
-/

namespace StoragePolicy

namespace Rule

/-! ### Keywords and names -/

/-- A keyword as it is written, in any case. -/
abbrev Spelling (keyword : String) : Type :=
  { chars : List Char // Text.isKeyword keyword chars = true }

/-- The keywords, which are no names. -/
def keywords : List String :=
  ["FOR", "WHEN", "DO", "TO", "SET", "DELETE", "WITH", "ON", "TRANSIENT", "CALLABLE"]

/-- What is no keyword. -/
def Free (word : List Char) : Prop := ∀ keyword ∈ keywords, Text.isKeyword keyword word = false

instance : DecidablePred Free := fun word =>
  inferInstanceAs (Decidable (∀ keyword ∈ keywords, Text.isKeyword keyword word = false))

/-- A name, an expression, a parameter or a server: a word that is no keyword. -/
structure Name where
  chars : List Char
  ne : chars ≠ []
  plain : chars.all (fun c => Word.CharClass.of c = .plain) = true
  free : Free chars

/-- The text of a name. -/
def Name.text (n : Name) : String := String.ofList n.chars

/-- Groups of words with a comma between them. -/
def listed (groups : List (List Word)) : List Word := (groups.intersperse [.comma]).flatten

/-! ### The parts of a sentence -/

/-- A target: a kind and an expression in one word with a colon between them, or in two words. A
    container is named together with its tenant. -/
structure TargetPhrase where
  kind : TargetKind
  spelling : Spelling kind.keyword
  expr : Name
  joined : Bool
  slash : kind = .container → '/' ∈ expr.chars
  start : joined = false → expr.chars.head? ≠ some ':'

namespace TargetPhrase

/-- The words of a target. -/
def words (p : TargetPhrase) : List Word :=
  if p.joined then [.text (p.spelling.1 ++ ':' :: p.expr.chars)]
  else [.text p.spelling.1, .text p.expr.chars]

/-- The target that is denoted. -/
def target (p : TargetPhrase) : RuleTarget := ⟨p.kind, p.expr.text⟩

end TargetPhrase

/-- A condition: a text that is read as one, and in which there is no word that ends it. -/
structure ConditionPhrase where
  spelling : Spelling "WHEN"
  text : List Char
  condition : Condition
  accepted : Condition.parse (String.ofList text) = .ok condition
  endless : ∀ w ∈ Word.scan text, w.isKeyword "DO" = false

/-- The words of a condition. -/
def ConditionPhrase.words (p : ConditionPhrase) : List Word :=
  .text p.spelling.1 :: Word.scan p.text

/-- Parameters, each with a sign of equality in it. -/
structure ParamsPhrase where
  spelling : Spelling "WITH"
  params : List Name
  ne : params ≠ []
  assigned : ∀ param ∈ params, '=' ∈ param.chars

namespace ParamsPhrase

/-- The words of parameters. -/
def words (p : ParamsPhrase) : List Word :=
  .text p.spelling.1 :: listed (p.params.map fun param => [.text param.chars])

/-- The parameters as they are denoted: with a comma between them, without blanks. -/
def text (p : ParamsPhrase) : String :=
  String.ofList ((p.params.map Name.chars).intersperse [',']).flatten

end ParamsPhrase

/-- The server of an action. -/
structure ServerPhrase where
  spelling : Spelling "ON"
  server : Name

namespace ServerPhrase

/-- The words of a server. -/
def words (p : ServerPhrase) : List Word := [.text p.spelling.1, .text p.server.chars]

/-- The server that is denoted: servers are told apart by their names in small letters. -/
def text (p : ServerPhrase) : String := String.ofList (Text.lower p.server.chars)

end ServerPhrase

/-- An action. Its filter may be written `filter=name`; a name that is written alone does not begin
    in this way. -/
structure ActionPhrase where
  verb : Verb
  spelling : Spelling verb.keyword
  marker : Option (Spelling "filter")
  filter : Name
  bare : marker = none → ∀ marker : Spelling "filter", ¬ marker.1 ++ ['='] <+: filter.chars
  params : Option ParamsPhrase
  server : Option ServerPhrase
  transient : Option (Spelling "TRANSIENT")
  callable : Option (Spelling "CALLABLE")

namespace ActionPhrase

/-- The word of the filter. -/
def filterWord (p : ActionPhrase) : List Char :=
  match p.marker with
  | some marker => marker.1 ++ '=' :: p.filter.chars
  | none => p.filter.chars

/-- The words of an action. -/
def words (p : ActionPhrase) : List Word :=
  .text p.spelling.1 :: .text p.filterWord ::
    ((p.params.map ParamsPhrase.words).getD [] ++
      ((p.server.map ServerPhrase.words).getD [] ++
        (p.transient.toList.map (fun flag => .text flag.1) ++
          p.callable.toList.map fun flag => .text flag.1)))

/-- The action that is denoted. -/
def action (p : ActionPhrase) : FilterAction where
  verb := p.verb
  filterName := p.filter.text
  server := p.server.map ServerPhrase.text
  params := p.params.map ParamsPhrase.text
  transient := p.transient.isSome
  callable := p.callable.isSome

end ActionPhrase

/-- Three parts of a clause as words. Blank space on either side of the middle part may be
    missing. -/
def clauseWords (left right : Bool) (first middle last : List Char) : List Word :=
  match left, right with
  | true, true => [.text first, .text middle, .text last]
  | true, false => [.text first, .text (middle ++ last)]
  | false, true => [.text (first ++ middle), .text last]
  | false, false => [.text (first ++ middle ++ last)]

/-- An object filter: a type, or a comparison with a number that can be held. `left` and `right` say
    where blank space is written within it. -/
inductive ObjectPhrase where
  | type (spelling : Spelling "OBJECT_TYPE") (name : Name) (left right : Bool)
  | size (spelling : Spelling "OBJECT_SIZE") (symbol : List Char) (op : Comparison)
      (known : Comparison.ofSymbol? (String.ofList symbol) = some op) (digits : List Char)
      (ne : digits.isEmpty = false) (decimal : digits.all Char.isDigit = true)
      (bound : Number.digitsValue digits ≤ Number.maxWord) (left right : Bool)

namespace ObjectPhrase

/-- The words of an object filter. -/
def words : ObjectPhrase → List Word
  | .type spelling name left right => clauseWords left right spelling.1 ['='] name.chars
  | .size spelling symbol _ _ digits _ _ _ left right =>
    clauseWords left right spelling.1 symbol digits

/-- What an object filter makes of those before it: of two of one kind the last counts. -/
def narrow (filter : ObjectFilter) : ObjectPhrase → ObjectFilter
  | .type _ name _ _ => { filter with objectType := some name.text }
  | .size _ _ op _ digits _ _ _ _ _ =>
    { filter with objectSize := some { operand := op.symbol, value := Number.digitsValue digits } }

end ObjectPhrase

/-- Object filters. -/
structure ObjectsPhrase where
  spelling : Spelling "TO"
  clauses : List ObjectPhrase
  ne : clauses ≠ []

namespace ObjectsPhrase

/-- The words of object filters. -/
def words (p : ObjectsPhrase) : List Word :=
  .text p.spelling.1 :: listed (p.clauses.map ObjectPhrase.words)

/-- The object filters that are denoted. -/
def filter (p : ObjectsPhrase) : ObjectFilter := p.clauses.foldl ObjectPhrase.narrow {}

end ObjectsPhrase

/-! ### Sentences -/

/-- A sentence of the grammar. -/
structure Sentence where
  leading : Option (Spelling "FOR")
  targets : List TargetPhrase
  targets_ne : targets ≠ []
  condition : Option ConditionPhrase
  middle : Spelling "DO"
  actions : List ActionPhrase
  actions_ne : actions ≠ []
  objects : Option ObjectsPhrase

namespace Sentence

/-- The words before `DO`. -/
def head (s : Sentence) : List Word :=
  listed (s.targets.map TargetPhrase.words) ++ (s.condition.map ConditionPhrase.words).getD []

/-- The words after `DO`. -/
def tail (s : Sentence) : List Word :=
  listed (s.actions.map ActionPhrase.words) ++ (s.objects.map ObjectsPhrase.words).getD []

/-- The words of a sentence. -/
def words (s : Sentence) : List Word :=
  s.leading.toList.map (fun leading => .text leading.1) ++
    (s.head ++ .text s.middle.1 :: s.tail)

/-- The rule that is denoted. -/
def rule (s : Sentence) : Rule where
  targets := s.targets.map TargetPhrase.target
  condition := s.condition.map ConditionPhrase.condition
  objectFilter := s.objects.map ObjectsPhrase.filter
  actions := s.actions.map ActionPhrase.action

end Sentence

/-! ### Recognising keywords -/

theorem lower_spelling (keyword : String) (s : Spelling keyword) :
    Text.lower s.1 = Text.lower keyword.toList := of_decide_eq_true s.2

/-- A keyword is recognised as what it is, in whatever case it is written. -/
theorem isKeyword_spelling (keyword other : String) (s : Spelling keyword) :
    Text.isKeyword other s.1 = Text.isKeyword other keyword.toList := by
  rw [Text.isKeyword, Text.isKeyword, Text.sameLetters, Text.sameLetters, lower_spelling]

/-- A word is no keyword if a character of it is no letter of the keyword. -/
theorem isKeyword_of_mem (keyword : String) (word : List Char) (c : Char) (hc : c ∈ word)
    (hkeyword : c.toLower ∉ Text.lower keyword.toList) : Text.isKeyword keyword word = false := by
  rw [Text.isKeyword, Text.sameLetters, decide_eq_false_iff_not]
  intro heq
  exact hkeyword (heq ▸ List.mem_map_of_mem hc)

/-- No character stands in a keyword but its letters. -/
theorem not_mem_spelling (keyword : String) (s : Spelling keyword) (c : Char)
    (hkeyword : c.toLower ∉ Text.lower keyword.toList) : c ∉ s.1 := by
  intro hc
  have hfalse := isKeyword_of_mem keyword s.1 c hc hkeyword
  rw [s.2] at hfalse
  exact nomatch hfalse

/-- A word is free if it has a character that is no letter of any keyword. -/
theorem free_of_mem (word : List Char) (c : Char) (hc : c ∈ word)
    (hkeywords : ∀ keyword ∈ keywords, c.toLower ∉ Text.lower keyword.toList) : Free word :=
  fun keyword hkeyword => isKeyword_of_mem keyword word c hc (hkeywords keyword hkeyword)

theorem free_of_colon (word : List Char) (h : ':' ∈ word) : Free word :=
  free_of_mem word ':' h (by decide)

theorem free_of_equal (word : List Char) (h : '=' ∈ word) : Free word :=
  free_of_mem word '=' h (by decide)

/-- A comparison is written with its symbol, or equality with a single sign. -/
theorem symbol_cases (symbol : List Char) (op : Comparison)
    (known : Comparison.ofSymbol? (String.ofList symbol) = some op) :
    symbol = ['='] ∨ symbol = op.symbol.toList := by
  have hchars : ∀ text : String, String.ofList symbol = text → symbol = text.toList := by
    intro text htext
    rw [← htext, String.toList_ofList]
  rw [Comparison.ofSymbol?] at known
  split at known
  · rename_i heq
    exact Or.inl (hchars "=" heq)
  · have heq : op.symbol = String.ofList symbol := by simpa using List.find?_some known
    exact Or.inr (hchars op.symbol heq.symm)

/-! ### The words of a phrase -/

section Words

variable (P : Word → Prop)

/-- What holds of commas and of the words of all groups. -/
theorem forall_mem_listed {α : Type} (phrases : List α) (words : α → List Word)
    (hcomma : P .comma) (h : ∀ phrase ∈ phrases, ∀ w ∈ words phrase, P w) :
    ∀ w ∈ listed (phrases.map words), P w := by
  intro w hw
  rcases Text.mem_flatten_intersperse (phrases.map words) .comma w hw with rfl | ⟨group, hgroup, hw⟩
  · exact hcomma
  · rcases List.mem_map.mp hgroup with ⟨phrase, hphrase, rfl⟩
    exact h phrase hphrase w hw

theorem forall_mem_flag (keyword : String) (flag : Option (Spelling keyword))
    (h : ∀ s : Spelling keyword, P (.text s.1)) :
    ∀ w ∈ flag.toList.map fun s => Word.text s.1, P w := by
  intro w hw
  rcases List.mem_map.mp hw with ⟨s, -, rfl⟩
  exact h s

theorem forall_mem_target (p : TargetPhrase) (hspelling : P (.text p.spelling.1))
    (hexpr : P (.text p.expr.chars)) (hjoined : P (.text (p.spelling.1 ++ ':' :: p.expr.chars))) :
    ∀ w ∈ p.words, P w := by
  rw [TargetPhrase.words]
  split
  · exact List.forall_mem_singleton.mpr hjoined
  · exact List.forall_mem_cons.mpr ⟨hspelling, List.forall_mem_singleton.mpr hexpr⟩

/-- The words of an action are its verb, its filter, keywords, names and commas. -/
theorem forall_mem_action (p : ActionPhrase) (hcomma : P .comma)
    (hname : ∀ n : Name, P (.text n.chars)) (hverb : P (.text p.spelling.1))
    (hfilter : P (.text p.filterWord))
    (hkeyword : ∀ keyword ∈ ["WITH", "ON", "TRANSIENT", "CALLABLE"],
      ∀ s : Spelling keyword, P (.text s.1)) :
    ∀ w ∈ p.words, P w := by
  have hparams : ∀ w ∈ (p.params.map ParamsPhrase.words).getD [], P w := by
    cases p.params with
    | none => exact List.forall_mem_nil P
    | some q =>
      exact List.forall_mem_cons.mpr ⟨hkeyword "WITH" (by decide) q.spelling,
        forall_mem_listed P q.params _ hcomma fun param _ =>
          List.forall_mem_singleton.mpr (hname param)⟩
  have hserver : ∀ w ∈ (p.server.map ServerPhrase.words).getD [], P w := by
    cases p.server with
    | none => exact List.forall_mem_nil P
    | some q =>
      exact List.forall_mem_cons.mpr ⟨hkeyword "ON" (by decide) q.spelling,
        List.forall_mem_singleton.mpr (hname q.server)⟩
  have htransient := forall_mem_flag P "TRANSIENT" p.transient (hkeyword _ (by decide))
  have hcallable := forall_mem_flag P "CALLABLE" p.callable (hkeyword _ (by decide))
  exact List.forall_mem_cons.mpr ⟨hverb, List.forall_mem_cons.mpr ⟨hfilter,
    List.forall_mem_append.mpr ⟨hparams, List.forall_mem_append.mpr ⟨hserver,
      List.forall_mem_append.mpr ⟨htransient, hcallable⟩⟩⟩⟩⟩

end Words

end Rule

end StoragePolicy
