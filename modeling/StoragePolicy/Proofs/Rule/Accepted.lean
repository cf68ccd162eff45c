import Mathlib
import StoragePolicy.Proofs.Number.Natural
import StoragePolicy.Proofs.Rule.Actions

/-!
# Every sentence is accepted

What the grammar derives the reader accepts, and it reads the rule that is denoted, in whatever way
the words are written. The parts of a rule are found by the first occurrence of a keyword. That is
right because in the parts before it no word is that keyword: neither a name nor another keyword nor
a word with a colon or a sign of equality in it.

## Theorems

* `ofWords_words`: The parts of a sentence are found.
* `readTargets_listed`, `readObjectFilter_listed`: Its targets and its object filters are read.
* `parse_of_written`: A text in which a sentence is written is read as the rule it denotes.
-/

namespace StoragePolicy

namespace Rule

/-! ### Targets -/

theorem ofKeyword?_spelling_kind (k : TargetKind) (s : Spelling k.keyword) :
    TargetKind.ofKeyword? s.1 = some k := by
  rw [TargetKind.ofKeyword?, isKeyword_spelling, isKeyword_spelling]
  exact TargetKind.ofKeyword?_keyword k

/-- A target whose kind and expression have been told apart is read. -/
theorem readTarget_of_split (p : TargetPhrase) (pieces : List (List Char))
    (h : splitTarget pieces = .ok (p.spelling.1, p.expr.chars)) :
    readTarget (pieces.map .text) = .ok p.target := by
  have hempty : p.expr.chars.isEmpty = false := by
    rw [List.isEmpty_eq_false_iff]
    exact p.expr.ne
  have hslash : ¬ (decide (p.kind = .container) && !p.expr.chars.contains '/') = true := by
    rw [Bool.and_eq_true, decide_eq_true_eq, Bool.not_eq_true']
    rintro ⟨hkind, hcontains⟩
    rw [List.contains_iff_mem.mpr (p.slash hkind)] at hcontains
    exact nomatch hcontains
  refine (Outcome.bind_eq_ok _ _ _).mpr ⟨pieces, texts_map pieces,
    (Outcome.bind_eq_ok _ _ _).mpr ⟨_, h, ?_⟩⟩
  dsimp only
  rw [ofKeyword?_spelling_kind]
  dsimp only
  rw [hempty, if_neg Bool.false_ne_true, if_neg hslash]
  rfl

theorem readTarget_words (p : TargetPhrase) : readTarget p.words = .ok p.target := by
  cases hjoined : p.joined with
  | true =>
    -- There is no colon in a keyword, so that the word is cut behind it.
    have hcolon : ∀ c ∈ p.spelling.1, decide (c = ':') = false := by
      intro c hc
      rw [decide_eq_false_iff_not]
      rintro rfl
      refine not_mem_spelling p.kind.keyword p.spelling ':' ?_ hc
      cases p.kind <;> decide
    have hsplit : splitTarget [p.spelling.1 ++ ':' :: p.expr.chars] =
        .ok (p.spelling.1, p.expr.chars) := by
      rw [splitTarget, Text.cutFirst_append (· = ':') _ _ ':' hcolon rfl]
    rw [TargetPhrase.words, hjoined]
    exact readTarget_of_split p _ hsplit
  | false =>
    -- The expression does not begin with a colon, so that nothing is dropped.
    have hstart : p.expr.chars.dropWhile (· = ':') = p.expr.chars := by
      have hhead := p.start hjoined
      cases hexpr : p.expr.chars with
      | nil => rfl
      | cons c rest =>
        rw [hexpr, List.head?_cons] at hhead
        exact List.dropWhile_cons_of_neg (by simpa using hhead)
    have hsplit : splitTarget [p.spelling.1, p.expr.chars] = .ok (p.spelling.1, p.expr.chars) := by
      rw [splitTarget, hstart]
    rw [TargetPhrase.words, hjoined]
    exact readTarget_of_split p _ hsplit

/-! ### Groups of words -/

/-- Groups with a comma between them are found again. -/
theorem splitWhere_listed (groups : List (List Word)) (hne : groups ≠ [])
    (h : ∀ group ∈ groups, .comma ∉ group) :
    Text.splitWhere Word.isComma (listed groups) = groups := by
  refine Text.splitWhere_intersperse Word.isComma groups .comma hne ?_ rfl
  intro group hgroup w hw
  cases w with
  | text chars => rfl
  | comma => exact absurd hw (h group hgroup)

theorem comma_not_mem_target (p : TargetPhrase) : .comma ∉ p.words := by
  rw [TargetPhrase.words]
  split <;> simp

/-- Targets with a comma between them are read in their order. -/
theorem readTargets_listed (targets : List TargetPhrase) (hne : targets ≠ []) :
    readTargets (listed (targets.map TargetPhrase.words)) =
      .ok (targets.map TargetPhrase.target) := by
  have hgroups : ∀ group ∈ targets.map TargetPhrase.words, Word.comma ∉ group := by
    intro group hgroup
    rcases List.mem_map.mp hgroup with ⟨p, -, rfl⟩
    exact comma_not_mem_target p
  rw [readTargets, splitWhere_listed _ (by simpa using hne) hgroups, Outcome.mapM_eq_ok,
    List.forall₂_map_left_iff, List.forall₂_map_right_iff, List.forall₂_same]
  intro p hp
  exact readTarget_words p

/-! ### Object filters -/

/-- The words of a clause are texts that make up its three parts. -/
theorem clauseWords_eq (left right : Bool) (first middle last : List Char) :
    ∃ pieces : List (List Char), clauseWords left right first middle last = pieces.map .text ∧
      pieces.flatten = first ++ (middle ++ last) := by
  cases left <;> cases right
  · exact ⟨[first ++ middle ++ last], rfl, by simp⟩
  · exact ⟨[first ++ middle, last], rfl, by simp⟩
  · exact ⟨[first, middle ++ last], rfl, by simp⟩
  · exact ⟨[first, middle, last], rfl, by simp⟩

theorem upper_append (before after : List Char) :
    Text.upper (before ++ after) = Text.upper before ++ Text.upper after := List.map_append

/-- A keyword is in capitals what it is however it is written. -/
theorem upper_spelling (keyword : String) (s : Spelling keyword) :
    Text.upper s.1 = Text.upper keyword.toList := by
  have hupper : ∀ text : List Char, Text.upper (Text.lower text) = Text.upper text := by
    intro text
    rw [Text.upper, Text.lower, List.map_map]
    exact List.map_congr_left fun c _ => Char.toUpper_toLower_eq_toUpper c
  rw [← hupper s.1, lower_spelling, hupper]

theorem length_spelling (keyword : String) (s : Spelling keyword) :
    s.1.length = keyword.toList.length := by
  have hlength := congrArg List.length (lower_spelling keyword s)
  rwa [Text.lower, Text.lower, List.length_map, List.length_map] at hlength

theorem upper_of_digits (digits : List Char) (h : digits.all Char.isDigit = true) :
    Text.upper digits = digits := by
  refine (List.map_congr_left fun c hc => ?_).trans (List.map_id digits)
  have hdigit := List.all_eq_true.mp h c hc
  refine Char.toUpper_eq_of_not_isLower fun hlower => ?_
  simp only [Char.isDigit, Char.isLower, Bool.and_eq_true, decide_eq_true_eq, ge_iff_le,
    UInt32.le_iff_toNat_le] at hdigit hlower
  exact absurd (Nat.le_trans hlower.1 hdigit.2) (by decide)

/-- Comparisons are written without letters and digits. -/
theorem symbol_of_known (symbol : List Char) (op : Comparison)
    (known : Comparison.ofSymbol? (String.ofList symbol) = some op) :
    Text.upper symbol = symbol ∧ symbol.all (fun c => !c.isDigit) = true := by
  rcases symbol_cases symbol op known with rfl | rfl
  · decide
  · cases op <;> decide

/-- A size is cut where its digits begin. -/
theorem readSize_of_known (symbol digits : List Char) (op : Comparison)
    (known : Comparison.ofSymbol? (String.ofList symbol) = some op)
    (ne : digits.isEmpty = false) (decimal : digits.all Char.isDigit = true)
    (bound : Number.digitsValue digits ≤ Number.maxWord) :
    readSize (symbol ++ digits) =
      .ok { operand := op.symbol, value := Number.digitsValue digits } := by
  have hsymbol : ∀ c ∈ symbol, (!c.isDigit) = true :=
    List.all_eq_true.mp (symbol_of_known symbol op known).2
  have hfirst : digits.takeWhile (fun c => !c.isDigit) = [] ∧
      digits.dropWhile (fun c => !c.isDigit) = digits := by
    cases digits with
    | nil => exact nomatch ne
    | cons c rest =>
      have hc : ¬ (!c.isDigit) = true := by
        rw [List.all_eq_true.mp decimal c List.mem_cons_self]
        decide
      exact ⟨List.takeWhile_cons_of_neg hc, List.dropWhile_cons_of_neg hc⟩
  have htake : (symbol ++ digits).takeWhile (fun c => !c.isDigit) = symbol := by
    rw [List.takeWhile_append_of_pos hsymbol, hfirst.1, List.append_nil]
  have hdrop : (symbol ++ digits).dropWhile (fun c => !c.isDigit) = digits := by
    rw [List.dropWhile_append_of_pos hsymbol, hfirst.2]
  rw [readSize, htake, hdrop, ne, if_neg Bool.false_ne_true, known,
    Number.readNatural_of_digits digits ne decimal bound]

theorem readObjectClause_words (filter : ObjectFilter) (p : ObjectPhrase) :
    readObjectClause filter p.words = .ok (p.narrow filter) := by
  cases p with
  | type spelling name left right =>
    rcases clauseWords_eq left right spelling.1 ['='] name.chars with ⟨pieces, hwords, hflat⟩
    have hstarts : "OBJECT_TYPE".toList.isPrefixOf (Text.upper pieces.flatten) = true := by
      rw [hflat, upper_append, upper_spelling, List.isPrefixOf_iff_prefix]
      exact List.prefix_append _ _
    have hdrop : pieces.flatten.drop "OBJECT_TYPE".length = '=' :: name.chars := by
      have hlength := length_spelling "OBJECT_TYPE" spelling
      rw [hflat, ← String.length_toList, ← hlength, List.drop_left]
      rfl
    refine (Outcome.bind_eq_ok _ _ _).mpr
      ⟨pieces, (congrArg texts hwords).trans (texts_map pieces), ?_⟩
    dsimp only
    rw [hstarts, if_pos rfl, hdrop]
    cases hname : name.chars with
    | nil => exact absurd hname name.ne
    | cons c rest =>
      rw [ObjectPhrase.narrow, Name.text, hname]
      rfl
  | size spelling symbol op known digits ne decimal bound left right =>
    rcases clauseWords_eq left right spelling.1 symbol digits with ⟨pieces, hwords, hflat⟩
    have hupper : Text.upper pieces.flatten = "OBJECT_SIZE".toList ++ (symbol ++ digits) := by
      rw [hflat, upper_append, upper_append, upper_spelling, upper_of_digits digits decimal,
        (symbol_of_known symbol op known).1]
      rfl
    -- The two keywords differ within their common length, so the first one is not taken for this.
    have hother : "OBJECT_TYPE".toList.isPrefixOf (Text.upper pieces.flatten) = false := by
      rw [hupper]
      rfl
    have hstarts : "OBJECT_SIZE".toList.isPrefixOf (Text.upper pieces.flatten) = true := by
      rw [hupper, List.isPrefixOf_iff_prefix]
      exact List.prefix_append _ _
    have hdrop : (Text.upper pieces.flatten).drop "OBJECT_SIZE".length = symbol ++ digits := by
      rw [hupper, ← String.length_toList, List.drop_left]
    refine (Outcome.bind_eq_ok _ _ _).mpr
      ⟨pieces, (congrArg texts hwords).trans (texts_map pieces), ?_⟩
    dsimp only
    rw [hother, if_neg Bool.false_ne_true, hstarts, if_pos rfl, hdrop,
      readSize_of_known symbol digits op known ne decimal bound]
    rfl

theorem comma_not_mem_clause (left right : Bool) (first middle last : List Char) :
    .comma ∉ clauseWords left right first middle last := by
  rcases clauseWords_eq left right first middle last with ⟨pieces, hwords, -⟩
  rw [hwords]
  simp

theorem comma_not_mem_object (p : ObjectPhrase) : .comma ∉ p.words := by
  cases p <;> exact comma_not_mem_clause _ _ _ _ _

theorem foldlM_words (clauses : List ObjectPhrase) (filter : ObjectFilter) :
    (clauses.map ObjectPhrase.words).foldlM readObjectClause filter =
      .ok (clauses.foldl ObjectPhrase.narrow filter) := by
  induction clauses generalizing filter with
  | nil => rfl
  | cons p rest ih =>
    rw [List.map_cons, List.foldlM_cons, readObjectClause_words]
    exact ih (p.narrow filter)

/-- Object filters with a comma between them are read one after the other. -/
theorem readObjectFilter_listed (p : ObjectsPhrase) :
    readObjectFilter (listed (p.clauses.map ObjectPhrase.words)) = .ok p.filter := by
  have hgroups : ∀ group ∈ p.clauses.map ObjectPhrase.words, Word.comma ∉ group := by
    intro group hgroup
    rcases List.mem_map.mp hgroup with ⟨clause, -, rfl⟩
    exact comma_not_mem_object clause
  rw [readObjectFilter, splitWhere_listed _ (by simpa using p.ne) hgroups]
  exact foldlM_words p.clauses {}

/-! ### Parts without a keyword -/

/-- No word is the keyword. -/
def Clear (keyword : String) (words : List Word) : Prop :=
  ∀ w ∈ words, w.isKeyword keyword = false

/-- In targets there is none of the keywords. -/
theorem clear_targets (keyword : String) (targets : List TargetPhrase)
    (hkeyword : keyword ∈ keywords) :
    Clear keyword (listed (targets.map TargetPhrase.words)) := by
  refine forall_mem_listed _ targets _ rfl fun p _ => ?_
  have hkind : Free p.kind.keyword.toList := by
    cases p.kind <;> decide
  have hspelling := (isKeyword_spelling _ keyword p.spelling).trans (hkind keyword hkeyword)
  have hjoined := free_of_colon (p.spelling.1 ++ ':' :: p.expr.chars)
    (List.mem_append_right _ List.mem_cons_self) keyword hkeyword
  exact forall_mem_target _ p hspelling (p.expr.free keyword hkeyword) hjoined

/-- In actions there is no keyword that ends them. -/
theorem clear_actions (actions : List ActionPhrase) :
    Clear "TO" (listed (actions.map ActionPhrase.words)) := by
  refine forall_mem_listed _ actions _ rfl fun p _ => ?_
  have hverb : Text.isKeyword "TO" p.verb.keyword.toList = false := by
    cases p.verb <;> decide
  have hothers : ∀ keyword ∈ ["WITH", "ON", "TRANSIENT", "CALLABLE"],
      Text.isKeyword "TO" keyword.toList = false := by
    decide
  exact forall_mem_action _ p rfl (fun n => n.free "TO" (by decide))
    ((isKeyword_spelling _ "TO" p.spelling).trans hverb)
    (ActionReader.free_filterWord p "TO" (by decide))
    fun keyword hkeyword s => (isKeyword_spelling keyword "TO" s).trans (hothers keyword hkeyword)

/-- In the head of a sentence there is no keyword that ends it. -/
theorem clear_head (s : Sentence) : Clear "DO" s.head := by
  refine List.forall_mem_append.mpr ⟨clear_targets "DO" s.targets (by decide), ?_⟩
  cases s.condition with
  | none => exact List.forall_mem_nil _
  | some p =>
    exact List.forall_mem_cons.mpr ⟨isKeyword_spelling "WHEN" "DO" p.spelling, p.endless⟩

/-! ### The parts of a sentence -/

/-- Words are cut at a keyword that is not among those before it, if it is there at all. -/
theorem cutAt_of_clear (keyword : String) (before : List Word)
    (after : Option (Spelling keyword × List Word)) (h : Clear keyword before) :
    cutAt keyword (before ++ (after.map fun part => .text part.1.1 :: part.2).getD []) =
      (before, after.map Prod.snd) := by
  cases after with
  | none =>
    have hnone := (Text.cutFirst_eq_none_iff (Word.isKeyword keyword) before).mpr h
    rw [Option.map_none, Option.getD_none, List.append_nil, cutAt, hnone]
    rfl
  | some part =>
    have hsome := Text.cutFirst_append (Word.isKeyword keyword) before part.2
      (.text part.1.1) h part.1.2
    rw [Option.map_some, Option.getD_some, cutAt, hsome]
    rfl

theorem listed_targets_ne (targets : List TargetPhrase) (hne : targets ≠ []) :
    listed (targets.map TargetPhrase.words) ≠ [] := by
  cases targets with
  | nil => exact absurd rfl hne
  | cons p rest =>
    rw [List.map_cons, TargetPhrase.words]
    cases p.joined <;> cases rest <;> exact List.cons_ne_nil _ _

/-- What is left without a leading `FOR`. -/
theorem dropFor_words (s : Sentence) : dropFor s.words = s.head ++ .text s.middle.1 :: s.tail := by
  rw [Sentence.words]
  cases s.leading with
  | some leading => exact if_pos leading.2
  | none =>
    -- The first word is one of the first target.
    have hclear := clear_targets "FOR" s.targets (by decide)
    cases hhead : listed (s.targets.map TargetPhrase.words) with
    | nil => exact absurd hhead (listed_targets_ne s.targets s.targets_ne)
    | cons w rest =>
      rw [hhead] at hclear
      rw [Sentence.head, hhead]
      exact if_neg (by rw [hclear w List.mem_cons_self]; decide)

/-- The parts of a sentence are found. -/
theorem ofWords_words (s : Sentence) :
    Sections.ofWords s.words =
      .ok { targets := listed (s.targets.map TargetPhrase.words)
            condition := s.condition.map fun p => Word.scan p.text
            actions := listed (s.actions.map ActionPhrase.words)
            objectFilter := s.objects.map fun p => listed (p.clauses.map ObjectPhrase.words) } := by
  -- No word that cuts a sentence stands in front of its own cut.
  have hhead : cutAt "WHEN" s.head = (listed (s.targets.map TargetPhrase.words),
      s.condition.map fun p => Word.scan p.text) := by
    have hclear := clear_targets "WHEN" s.targets (by decide)
    rw [Sentence.head]
    cases s.condition with
    | none => exact cutAt_of_clear "WHEN" _ none hclear
    | some p => exact cutAt_of_clear "WHEN" _ (some (p.spelling, Word.scan p.text)) hclear
  have htail : cutAt "TO" s.tail = (listed (s.actions.map ActionPhrase.words),
      s.objects.map fun p => listed (p.clauses.map ObjectPhrase.words)) := by
    have hclear := clear_actions s.actions
    rw [Sentence.tail]
    cases s.objects with
    | none => exact cutAt_of_clear "TO" _ none hclear
    | some p =>
      exact cutAt_of_clear "TO" _
        (some (p.spelling, listed (p.clauses.map ObjectPhrase.words))) hclear
  rw [Sections.ofWords, dropFor_words,
    Text.cutFirst_append (Word.isKeyword "DO") _ _ (.text s.middle.1) (clear_head s) s.middle.2]
  dsimp only
  rw [hhead, htail]

/-! ### Sentences -/

/-- A text in which a sentence is written is read as the rule that it denotes. The rule is dynamic
    if the sentence has a condition. -/
theorem parse_of_written (s : Sentence) (text : String) (h : Word.Written s.words text.toList) :
    parse text = .ok s.rule ∧ s.rule.isDynamic = s.condition.isSome := by
  refine ⟨?_, Option.isSome_map⟩
  have hsections := ofWords_words s
  rw [← Word.scan_of_written _ _ h] at hsections
  -- The sections are read one by one, and those that are optional are read if they are there.
  have hcondition : (s.condition.map fun p => Word.scan p.text).mapM (readCondition text) =
      .ok (s.condition.map ConditionPhrase.condition) := by
    cases s.condition with
    | none => rfl
    | some p =>
      have hread := (readCondition_scan text p.text p.condition p.accepted).2
      rw [Option.map_some, Option.mapM_some, hread]
      rfl
  have hobjects : (s.objects.map fun p => listed (p.clauses.map ObjectPhrase.words)).mapM
      readObjectFilter = .ok (s.objects.map ObjectsPhrase.filter) := by
    cases s.objects with
    | none => rfl
    | some p =>
      rw [Option.map_some, Option.mapM_some, readObjectFilter_listed]
      rfl
  have htargets := readTargets_listed s.targets s.targets_ne
  have hactions := readActions_listed s.actions s.actions_ne
  exact (Outcome.bind_eq_ok _ _ _).mpr ⟨_, (Outcome.mapError_eq_ok _ _ _).mpr hsections,
    (Outcome.bind_eq_ok _ _ _).mpr ⟨_, (Outcome.mapError_eq_ok _ _ _).mpr htargets,
      (Outcome.bind_eq_ok _ _ _).mpr ⟨_, hcondition,
        (Outcome.bind_eq_ok _ _ _).mpr ⟨_, (Outcome.mapError_eq_ok _ _ _).mpr hactions,
          (Outcome.bind_eq_ok _ _ _).mpr
            ⟨_, (Outcome.mapError_eq_ok _ _ _).mpr hobjects, rfl⟩⟩⟩⟩⟩

/-- A sentence with everything in it, written without care for case and blank space. -/
theorem parse_of_written_everything :
    ∃ s : Sentence,
      (parse ("for tenant:alice , CONTAINER bob/photos\n when put_bw>100 AND get_ops < 5 do " ++
          "Set filter=compress With level=3 ,mode=fast on PROXY callable," ++
          "DELETE cache transient to object_type=DOCS, Object_Size >= 1024") = .ok s.rule ∧
        s.rule.isDynamic = s.condition.isSome) ∧
      s.rule.isDynamic = true ∧
      s.rule.targets = [⟨.tenant, "alice"⟩, ⟨.container, "bob/photos"⟩] ∧
      s.rule.actions = [⟨.set, "compress", some "proxy", some "level=3,mode=fast", false, true⟩,
        ⟨.delete, "cache", none, none, true, false⟩] ∧
      s.rule.objectFilter = some ⟨some "DOCS", some ⟨">=", 1024⟩⟩ := by
  have hcondition : (Condition.parse "put_bw>100 AND get_ops < 5").toOption.isSome = true := by
    decide +kernel
  cases hparse : Condition.parse "put_bw>100 AND get_ops < 5" with
  | error fault =>
    rw [hparse] at hcondition
    exact nomatch hcondition
  | ok condition =>
    -- Each word is spelled as it stands in the text.
    let s : Sentence :=
      { leading := some ⟨"for".toList, rfl⟩
        targets :=
          [⟨.tenant, ⟨"tenant".toList, rfl⟩, ⟨"alice".toList, by decide, rfl, by decide⟩, true,
            by decide, by decide⟩,
           ⟨.container, ⟨"CONTAINER".toList, rfl⟩,
            ⟨"bob/photos".toList, by decide, rfl, by decide⟩, false, by decide, by decide⟩]
        targets_ne := List.cons_ne_nil _ _
        condition := some ⟨⟨"when".toList, rfl⟩, "put_bw>100 AND get_ops < 5".toList, condition,
          by rw [String.ofList_toList, hparse], by decide⟩
        middle := ⟨"do".toList, rfl⟩
        actions :=
          [⟨.set, ⟨"Set".toList, rfl⟩, some ⟨"filter".toList, rfl⟩,
            ⟨"compress".toList, by decide, rfl, by decide⟩, nofun,
            some ⟨⟨"With".toList, rfl⟩, [⟨"level=3".toList, by decide, rfl, by decide⟩,
              ⟨"mode=fast".toList, by decide, rfl, by decide⟩], List.cons_ne_nil _ _, by decide⟩,
            some ⟨⟨"on".toList, rfl⟩, ⟨"PROXY".toList, by decide, rfl, by decide⟩⟩, none,
            some ⟨"callable".toList, rfl⟩⟩,
           ⟨.delete, ⟨"DELETE".toList, rfl⟩, none, ⟨"cache".toList, by decide, rfl, by decide⟩,
            fun _ marker h => absurd (h.subset (List.mem_append_right _ List.mem_cons_self))
              (by decide : '=' ∉ "cache".toList),
            none, none, some ⟨"transient".toList, rfl⟩, none⟩]
        actions_ne := List.cons_ne_nil _ _
        objects := some ⟨⟨"to".toList, rfl⟩,
          [.type ⟨"object_type".toList, rfl⟩ ⟨"DOCS".toList, by decide, rfl, by decide⟩ false false,
           .size ⟨"Object_Size".toList, rfl⟩ ">=".toList .greaterOrEqual rfl "1024".toList rfl rfl
            (by decide) true true],
          List.cons_ne_nil _ _⟩ }
    refine ⟨s, parse_of_written s _ ?_, rfl, rfl, rfl, rfl⟩
    rw [String.toList_append, String.toList_append]
    change Word.Written
      [.text "for".toList, .text "tenant:alice".toList, .comma, .text "CONTAINER".toList,
        .text "bob/photos".toList, .text "when".toList, .text "put_bw>100".toList,
        .text "AND".toList, .text "get_ops".toList, .text "<".toList, .text "5".toList,
        .text "do".toList, .text "Set".toList, .text "filter=compress".toList,
        .text "With".toList, .text "level=3".toList, .comma, .text "mode=fast".toList,
        .text "on".toList, .text "PROXY".toList, .text "callable".toList, .comma,
        .text "DELETE".toList, .text "cache".toList, .text "transient".toList,
        .text "to".toList, .text "object_type=DOCS".toList, .comma,
        .text "Object_Size".toList, .text ">=".toList, .text "1024".toList] _
    rw [Word.written_iff]
    decide +kernel

end Rule

end StoragePolicy
