import StoragePolicy.Proofs.Rule.Clauses
import StoragePolicy.Proofs.Rule.Writable

/-!
# Rules that have been read are well formed

More texts are accepted than the grammar derives, but what is read of them is as it is of a
sentence. Targets and actions there are at least one each, and one action for every verb. What a
name or an expression is made of is a word of the text or a part of one, so there is no blank and no
comma in it. What has been read of an action up to some word is carried along the moves of the
reader; that it has a name is known only where it ends.

## Main definitions

* `Rule.Solid`: Texts that could be a word.
* `FilterAction.WellFormed`, `ObjectFilter.WellFormed`: The parts of well-formed rules.
* `Rule.WellFormed`: Well-formed rules, read of given words.

## Theorems

* `tidy_move`: A move keeps what is known of the action that is being read.
* `wellFormed_of_readAs`: An action that has been read is well formed.
* `wellFormed_of_parse`: A rule that has been read is well formed.
-/

namespace StoragePolicy

/-- Texts that could be a word of a rule: not empty, and without blanks and commas. -/
def Rule.Solid (text : String) : Prop :=
  text ≠ "" ∧ ∀ c ∈ text.toList, Text.isBlank c = false ∧ c ≠ ','

/-- Well-formed actions. The parameters are pieces with a sign of equality in each, joined by
    commas, and the server is not written with capitals. -/
structure FilterAction.WellFormed (a : FilterAction) : Prop where
  filterName : Rule.Solid a.filterName
  params : ∀ text, a.params = some text → ∃ pieces : List (List Char), pieces ≠ [] ∧
    (∀ piece ∈ pieces, '=' ∈ piece ∧ ',' ∉ piece) ∧
      text.toList = (pieces.intersperse [',']).flatten
  server : ∀ text, a.server = some text → text ≠ "" ∧ ∀ c ∈ text.toList, c.isUpper = false

/-- Well-formed object filters: they narrow something, a type is not empty, and the operand of a
    size is a comparison. -/
structure ObjectFilter.WellFormed (filter : ObjectFilter) : Prop where
  narrowed : filter.objectType.isSome = true ∨ filter.objectSize.isSome = true
  objectType : filter.objectType ≠ some ""
  operand : ∀ size, filter.objectSize = some size →
    size.operand ∈ ["<", "<=", ">", ">=", "==", "!="]

namespace Rule

/-- Well-formed rules, read of given words. -/
structure WellFormed (words : List Word) (rule : Rule) : Prop where
  targeted : rule.targets ≠ []
  acting : rule.actions ≠ []
  verbs : rule.actions.map FilterAction.verb = (actionsOf words).filterMap Word.verb?
  targets : ∀ t ∈ rule.targets, Solid t.expr ∧ (t.kind = .container → '/' ∈ t.expr.toList)
  actions : ∀ a ∈ rule.actions, a.WellFormed
  objectFilter : ∀ filter, rule.objectFilter = some filter → filter.WellFormed
  dynamic : rule.isDynamic = true ↔ ∃ w ∈ headOf words, w.isKeyword "WHEN" = true

theorem plain_iff (c : Char) :
    Word.CharClass.of c = .plain ↔ Text.isBlank c = false ∧ c ≠ ',' := by
  rw [Word.CharClass.of]
  by_cases hcomma : c = ','
  · simp [hcomma]
  · cases hblank : Text.isBlank c <;> simp [hcomma]

theorem solid_ofList (chars : List Char) (hne : chars ≠ [])
    (h : ∀ c ∈ chars, Word.CharClass.of c = .plain) : Solid (String.ofList chars) := by
  refine ⟨by simpa using hne, fun c hc => ?_⟩
  rw [String.toList_ofList] at hc
  exact (plain_iff c).mp (h c hc)

/-! ### Targets -/

/-- The characters of an expression are characters of the words of its target. -/
theorem mem_of_splitTarget (pieces : List (List Char)) (kindWord expr : List Char)
    (h : splitTarget pieces = .ok (kindWord, expr)) :
    ∀ c ∈ expr, ∃ piece ∈ pieces, c ∈ piece := by
  intro c hc
  unfold splitTarget at h
  split at h
  · rename_i single
    split at h
    · rename_i sides hcut
      cases h
      rcases Text.eq_append_of_cutFirst _ _ _ _ hcut with ⟨separator, -, rfl⟩
      exact ⟨_, List.mem_singleton_self _,
        List.mem_append_right _ (List.mem_cons_of_mem separator hc)⟩
    · cases h
  · cases h
    exact ⟨_, List.mem_cons_of_mem _ (List.mem_singleton_self _),
      (List.dropWhile_sublist _).subset hc⟩
  · cases h
  · cases h

/-- A target that has been read has an expression that is a word or a part of one, with a slash in
    it if it is that of a container. -/
theorem target_of_readTarget (words : List Word) (t : RuleTarget) (h : readTarget words = .ok t)
    (hwords : ∀ w ∈ words, w.Sound) :
    Solid t.expr ∧ (t.kind = .container → '/' ∈ t.expr.toList) := by
  rw [readTarget] at h
  rcases (Outcome.bind_eq_ok _ _ _).mp h with ⟨pieces, hpieces, h⟩
  -- A piece is cut out of a word, so that its characters are those of the word.
  rcases (Outcome.bind_eq_ok _ _ _).mp h with ⟨⟨kindWord, expr⟩, hsplit, h⟩
  have hmap := eq_map_of_texts words pieces hpieces
  have hplain : ∀ c ∈ expr, Word.CharClass.of c = .plain := by
    intro c hc
    rcases mem_of_splitTarget pieces kindWord expr hsplit c hc with ⟨piece, hpiece, hmem⟩
    have hsound := hwords (.text piece) (hmap ▸ List.mem_map_of_mem hpiece)
    exact hsound.2 c hmem
  dsimp only at h
  split at h
  · cases h
  · split at h
    · cases h
    · rename_i hne
      split at h
      · cases h
      · rename_i hslash
        cases h
        refine ⟨solid_ofList expr (by simpa using hne) hplain, fun hkind => ?_⟩
        dsimp only at hkind
        rw [String.toList_ofList]
        simpa [hkind] using hslash

theorem targets_of_readTargets (words : List Word) (targets : List RuleTarget)
    (h : readTargets words = .ok targets) (hwords : ∀ w ∈ words, w.Sound) :
    targets ≠ [] ∧
      ∀ t ∈ targets, Solid t.expr ∧ (t.kind = .container → '/' ∈ t.expr.toList) := by
  rw [readTargets, Outcome.mapM_eq_ok] at h
  constructor
  · rintro rfl
    exact Text.splitWhere_ne_nil Word.isComma words (List.length_eq_zero_iff.mp h.length_eq)
  · intro t ht
    have hgroups := Text.of_mem_splitWhere Word.isComma words
    generalize Text.splitWhere Word.isComma words = groups at h hgroups
    induction h with
    | nil => exact absurd ht List.not_mem_nil
    | @cons group first groups others hfirst hothers ih =>
      rcases List.mem_cons.mp ht with rfl | ht
      · exact target_of_readTarget group t hfirst fun w hw =>
          hwords w (hgroups group List.mem_cons_self w hw).2
      · exact ih ht fun other hother => hgroups other (List.mem_cons_of_mem group hother)

/-! ### Actions -/

namespace ActionReader

theorem mem_of_filterName (word : List Char) (c : Char) (hc : c ∈ filterName word) :
    c ∈ word := by
  rw [filterName] at hc
  split at hc
  · rename_i key name hcut
    split at hc
    · rcases Text.eq_append_of_cutFirst _ _ _ _ hcut with ⟨separator, -, rfl⟩
      exact List.mem_append_right _ (List.mem_cons_of_mem separator hc)
    · exact hc
  · exact hc

/-- What is known of a reader within a clause, wherever in it: its action `a` is well formed but for
    its name, which may still be missing, and its parameters have not been joined. -/
structure Tidy (r : ActionReader) (a : FilterAction) : Prop where
  current : r.current = some a
  filterName : ∀ c ∈ a.filterName.toList, Word.CharClass.of c = .plain
  server : ∀ text, a.server = some text → text ≠ "" ∧ ∀ c ∈ text.toList, c.isUpper = false
  unjoined : a.params = none
  params : ∀ piece ∈ r.params, '=' ∈ piece ∧ ∀ c ∈ piece, Word.CharClass.of c = .plain

theorem tidy_of_begun (verb : Verb) (r : ActionReader) (h : Begun verb r) :
    Tidy r { verb := verb, filterName := "" } :=
  ⟨h.current, by simp, by simp, rfl, by simp [h.params]⟩

/-- A move keeps what is known of the action that is being read, and its verb. -/
theorem tidy_move (r next : ActionReader) (a : FilterAction) (w : Word) (hw : w.Sound)
    (hmove : Move r a w next) (h : Tidy r a) : ∃ a', a'.verb = a.verb ∧ Tidy next a' := by
  cases hmove with
  | between => exact ⟨a, rfl, h⟩
  | pause | «with» | on => exact ⟨a, rfl, h.current, h.filterName, h.server, h.unjoined, h.params⟩
  | transient =>
    exact ⟨{ a with transient := true }, rfl, rfl, h.filterName, h.server, h.unjoined, h.params⟩
  | callable =>
    exact ⟨{ a with callable := true }, rfl, rfl, h.filterName, h.server, h.unjoined, h.params⟩
  -- Names and servers are made of the characters of a sound word.
  | name word =>
    refine ⟨{ a with filterName := String.ofList (filterName word) }, rfl, rfl, fun c hc => ?_,
      h.server, h.unjoined, h.params⟩
    rw [String.toList_ofList] at hc
    exact hw.2 c (mem_of_filterName word c hc)
  | param word hword hslot hassigned =>
    exact ⟨a, rfl, h.current, h.filterName, h.server, h.unjoined,
      List.forall_mem_cons.mpr ⟨⟨hassigned, hw.2⟩, h.params⟩⟩
  | server word =>
    refine ⟨{ a with server := some (String.ofList (Text.lower word)) }, rfl, rfl, h.filterName,
      fun text htext => ?_, h.unjoined, h.params⟩
    cases htext
    refine ⟨by simpa [Text.lower] using hw.1, fun c hc => ?_⟩
    rw [String.toList_ofList] at hc
    rcases List.mem_map.mp hc with ⟨d, -, rfl⟩
    exact Char.isUpper_toLower_eq_false d

/-- So do the moves over the words of a clause. -/
theorem tidy_moves (r stop : ActionReader) (words : List Word) (hmoves : Moves r words stop)
    (hwords : ∀ w ∈ words, w.Sound) (a : FilterAction) (h : Tidy r a) :
    ∃ a', a'.verb = a.verb ∧ Tidy stop a' := by
  induction hmoves generalizing a with
  | nil r => exact ⟨a, rfl, h⟩
  | cons r next stop b w words hr hmove hrest ih =>
    have hsame : a = b := Option.some.inj (h.current.symm.trans hr)
    subst hsame
    rcases tidy_move r next a w (hwords w List.mem_cons_self) hmove h with ⟨a', hverb, hnext⟩
    rcases ih (fun v hv => hwords v (List.mem_cons_of_mem w hv)) a' hnext with ⟨b, hb, hstop⟩
    exact ⟨b, hb.trans hverb, hstop⟩

/-- An action that has been read is well formed, and its verb is that of its clause. -/
theorem wellFormed_of_readAs (verb : Verb) (words : List Word) (a : FilterAction)
    (h : ReadAs verb words a) (hwords : ∀ w ∈ words, w.Sound) : a.verb = verb ∧ a.WellFormed := by
  rcases h with ⟨start, stop, b, hbegun, hmoves, hended⟩
  rcases tidy_moves start stop words hmoves hwords _ (tidy_of_begun verb start hbegun) with
    ⟨b', hverb, htidy⟩
  have hsame : b' = b := Option.some.inj (htidy.current.symm.trans hended.current)
  subst hsame
  rw [hended.action]
  refine ⟨hverb, ⟨hended.named, fun c hc => (plain_iff c).mp (htidy.filterName c hc)⟩, ?_,
    htidy.server⟩
  intro text htext
  dsimp only at htext
  split at htext
  · rw [htidy.unjoined] at htext
    cases htext
  · rename_i hparams
    cases htext
    refine ⟨stop.params.reverse, by simpa using hparams, fun piece hpiece => ?_,
      String.toList_ofList⟩
    rcases htidy.params piece (List.mem_reverse.mp hpiece) with ⟨hassigned, hplain⟩
    exact ⟨hassigned, fun hcomma => ((plain_iff ',').mp (hplain ',' hcomma)).2 rfl⟩

theorem wellFormed_of_readAll (clauses : List (Verb × List Word)) (actions : List FilterAction)
    (h : ReadAll clauses actions) (hwords : ∀ clause ∈ clauses, ∀ w ∈ clause.2, w.Sound) :
    actions.map FilterAction.verb = clauses.map Prod.fst ∧ ∀ a ∈ actions, a.WellFormed := by
  induction h with
  | nil => exact ⟨rfl, List.forall_mem_nil _⟩
  | @cons clause a clauses actions ha hactions ih =>
    rcases wellFormed_of_readAs clause.1 clause.2 a ha (hwords clause List.mem_cons_self) with
      ⟨hverb, hwellFormed⟩
    rcases ih fun other hother => hwords other (List.mem_cons_of_mem clause hother) with
      ⟨hverbs, hall⟩
    exact ⟨by rw [List.map_cons, List.map_cons, hverb, hverbs],
      List.forall_mem_cons.mpr ⟨hwellFormed, hall⟩⟩

end ActionReader

/-! ### Object filters -/

/-- A clause leaves an object filter that narrows something, whatever it was before. -/
theorem wellFormed_narrow (filter : ObjectFilter) (value : ObjectValue) (clause : List Char)
    (hvalue : value.GivenBy clause) (htype : filter.objectType ≠ some "")
    (hoperand : ∀ size, filter.objectSize = some size →
      size.operand ∈ ["<", "<=", ">", ">=", "==", "!="]) : (value.narrow filter).WellFormed := by
  cases hvalue with
  | type keyword name hkeyword hname =>
    exact ⟨Or.inl rfl, by simpa [ObjectValue.narrow] using hname, hoperand⟩
  | size keyword symbol digits op hkeyword hop =>
    have hsymbol : op.symbol ∈ ["<", "<=", ">", ">=", "==", "!="] := by
      cases op <;> decide
    refine ⟨Or.inr rfl, htype, fun size hsize => ?_⟩
    cases hsize
    exact hsymbol

theorem wellFormed_foldlM (groups : List (List Word)) (filter result : ObjectFilter)
    (hne : groups ≠ [] ∨ filter.WellFormed) (htype : filter.objectType ≠ some "")
    (hoperand : ∀ size, filter.objectSize = some size →
      size.operand ∈ ["<", "<=", ">", ">=", "==", "!="])
    (h : groups.foldlM readObjectClause filter = .ok result) : result.WellFormed := by
  induction groups generalizing filter with
  | nil =>
    cases h
    exact hne.resolve_left fun hnil => hnil rfl
  | cons group rest ih =>
    rw [List.foldlM_cons] at h
    rcases (Outcome.bind_eq_ok _ _ _).mp h with ⟨next, hnext, h⟩
    rcases value_of_readObjectClause filter group next hnext with ⟨pieces, value, -, hvalue, rfl⟩
    have hwellFormed := wellFormed_narrow filter value _ hvalue htype hoperand
    exact ih _ (Or.inr hwellFormed) hwellFormed.objectType hwellFormed.operand h

theorem wellFormed_of_readObjectFilter (words : List Word) (filter : ObjectFilter)
    (h : readObjectFilter words = .ok filter) : filter.WellFormed :=
  wellFormed_foldlM _ {} filter (Or.inl (Text.splitWhere_ne_nil _ _)) (by simp) (by simp) h

/-! ### Rules -/

theorem mem_of_dropFor (words : List Word) (w : Word) (h : w ∈ dropFor words) : w ∈ words := by
  cases words with
  | nil => exact h
  | cons first rest =>
    rw [dropFor] at h
    split at h
    · exact List.mem_cons_of_mem first h
    · exact h

/-- The words of the sections are words of the text. -/
theorem mem_of_sections (words : List Word) :
    (∀ w ∈ targetsOf words, w ∈ words) ∧ ∀ w ∈ actionsOf words, w ∈ words := by
  have htake : ∀ (p : Word → Bool) (items : List Word), ∀ w ∈ items.takeWhile p, w ∈ items :=
    fun p items w hw => (List.takeWhile_sublist p).subset hw
  have hdrop : ∀ (p : Word → Bool) (items : List Word), ∀ w ∈ items.dropWhile p, w ∈ items :=
    fun p items w hw => (List.dropWhile_sublist p).subset hw
  refine ⟨fun w hw => ?_, fun w hw => ?_⟩
  · exact mem_of_dropFor words w (htake _ _ w (htake _ _ w hw))
  · exact mem_of_dropFor words w (hdrop _ _ w (List.mem_of_mem_tail (htake _ _ w hw)))

theorem isDynamic_of_mapM (line : String) (words : Option (List Word))
    (condition : Option Condition) (h : words.mapM (readCondition line) = .ok condition) :
    condition.isSome = words.isSome := by
  cases words with
  | none =>
    cases h
    rfl
  | some words =>
    rw [Option.mapM_some] at h
    rcases (Outcome.map_eq_ok _ _ _).mp h with ⟨c, -, rfl⟩
    rfl

/-- A rule that has been read is well formed. -/
theorem wellFormed_of_parse (text : String) (words : List Word) (rule : Rule)
    (hwritten : Word.Written words text.toList) (h : parse text = .ok rule) :
    rule.WellFormed words := by
  -- The words are those of a scan of the text, so that each of them is sound.
  rw [Word.written_iff] at hwritten
  have hsound := sound_scan text.toList
  rcases parts_of_parse text rule h with
    ⟨sections, hsections, htargets, hcondition, hactions, hfilter⟩
  rw [hwritten] at hsections hsound
  rcases sections_of_ofWords words sections hsections with ⟨htargetsOf, hwhen, hactionsOf, -⟩
  rw [htargetsOf] at htargets
  rw [hactionsOf] at hactions
  rcases targets_of_readTargets _ _ htargets fun w hw => hsound w ((mem_of_sections words).1 w hw)
    with ⟨htargeted, htarget⟩
  rcases ActionReader.clauses_of_readActions _ _ hactions with ⟨hacting, -, hall⟩
  have hclauses : ∀ clause ∈ (clausesOf (actionsOf words)).2, ∀ w ∈ clause.2, w.Sound :=
    fun clause hclause w hw => hsound w ((mem_of_sections words).2 w
      ((of_mem_clausesOf (actionsOf words)).2 clause hclause w hw).1)
  rcases ActionReader.wellFormed_of_readAll _ _ hall hclauses with ⟨hverbs, haction⟩
  refine ⟨htargeted, hacting, by rw [hverbs, verbs_clausesOf], htarget, haction,
    fun filter hobject => ?_, ?_⟩
  · rw [hobject] at hfilter
    rcases (Outcome.option_mapM_eq_some _ _ _).mp hfilter with ⟨objects, -, hread⟩
    exact wellFormed_of_readObjectFilter objects filter hread
  · rw [isDynamic, isDynamic_of_mapM text _ _ hcondition, hwhen, List.any_eq_true]

/-- Two targets, a condition, two actions and an object filter, with an `ON` that no server
    follows. -/
theorem wellFormed_of_parse_everything :
    ∃ rule, parse ("CONTAINER bob/p,tenant:al WHEN b>1 DO set filter=c WITH l=3,m=f ON Px," ++
        "DELETE d ON, callable TO object_size>9") = .ok rule ∧
      rule.actions.map FilterAction.server = [some "px", none] ∧
      rule.WellFormed (Word.scan ("CONTAINER bob/p,tenant:al WHEN b>1 DO set filter=c " ++
        "WITH l=3,m=f ON Px,DELETE d ON, callable TO object_size>9").toList) := by
  have hservers : (parse ("CONTAINER bob/p,tenant:al WHEN b>1 DO set filter=c WITH l=3,m=f " ++
      "ON Px,DELETE d ON, callable TO object_size>9")).toOption.map
        (fun rule => rule.actions.map FilterAction.server) = some [some "px", none] := by
    decide +kernel
  have htext : ∀ text, (parse text).toOption.map
      (fun rule => rule.actions.map FilterAction.server) = some [some "px", none] →
      ∃ rule, parse text = .ok rule ∧ rule.actions.map FilterAction.server = [some "px", none] ∧
        rule.WellFormed (Word.scan text.toList) := by
    intro text hservers
    cases hparse : parse text with
    | error fault =>
      rw [hparse] at hservers
      cases hservers
    | ok rule =>
      rw [hparse] at hservers
      exact ⟨rule, rfl, Option.some.inj hservers,
        wellFormed_of_parse text _ rule (Word.written_scan _) hparse⟩
  exact htext _ hservers

end Rule

end StoragePolicy
