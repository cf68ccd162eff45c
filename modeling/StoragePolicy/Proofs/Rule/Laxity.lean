import StoragePolicy.Proofs.Rule.WellFormed

/-!
# What is accepted beyond the grammar

The grammar has at most one server in an action, behind an `ON`, and one value in each clause of the
object filters, as a word or with its keyword in one. The reader is laxer in two places. An `ON`
only says what the next word is taken for, and a comma or another keyword says something else; so it
is refused where an action ends, but nowhere else. And the words of a clause are put together before
anything is looked for in them.

What has been read nevertheless follows from the words alone. The server of an action is the last of
the words that stand directly behind an `ON`. The value of a clause is the tail of its words put
together.

## Main definitions

* `Rule.serversOf`: The words that name a server.
* `Rule.Served`: Every `ON` is followed by the server of the action.
* `ObjectValue.InOneWord`: A value is a word or the tail of one.
* `ActionReader.ServedLast`, `ObjectValue.ReadOf`: What holds of all that has been read.

## Theorems

* `servedLast_of_readAs`: The server of an action that has been read.
* `readOf_of_readObjectFilter`: The values of object filters that have been read.
* `laxity_of_parse`: What a rule that has been read says of its text, and when it is as in the
  grammar.
* `not_strict_of_parse`: It is not always so.
-/

namespace StoragePolicy

namespace Rule

/-! ### Servers -/

/-- The text of a word that is none of the keywords of actions. -/
def Word.ordinary? : Word → Option (List Char)
  | .text word => if Ordinary word then some word else none
  | .comma => none

/-- The words that name a server: those directly behind an `ON` that are no keywords of actions. -/
def serversOf (words : List Word) : List (List Char) :=
  (words.zip words.tail).filterMap fun pair =>
    if pair.1.isKeyword "ON" then pair.2.ordinary? else none

/-- A server as it is denoted, in small letters. -/
def serverText (word : List Char) : String := String.ofList (Text.lower word)

/-- Every `ON` among the words of an action is directly followed by a word that is no keyword of
    actions, and that word is the server of the action. -/
def Served (words : List Word) (a : FilterAction) : Prop :=
  ∀ before on after, words = before ++ on :: after → on.isKeyword "ON" = true →
    ∃ word rest, after = .text word :: rest ∧ Ordinary word ∧ a.server = some (serverText word)

theorem serversOf_cons (w next : Word) (rest : List Word) :
    serversOf (w :: next :: rest) =
      (if w.isKeyword "ON" then next.ordinary? else none).toList ++ serversOf (next :: rest) := by
  rw [serversOf, List.tail_cons, List.zip_cons_cons, List.filterMap_cons]
  dsimp only
  cases (if w.isKeyword "ON" = true then next.ordinary? else none) <;> rfl

theorem serversOf_comma (words : List Word) : serversOf (.comma :: words) = serversOf words := by
  cases words with
  | nil => rfl
  | cons w rest =>
    rw [serversOf_cons]
    rfl

theorem ordinary?_eq_some (w : Word) (word : List Char) :
    w.ordinary? = some word ↔ w = .text word ∧ Ordinary word := by
  cases w with
  | comma => simp [Word.ordinary?]
  | text chars =>
    rw [Word.ordinary?]
    split
    · rename_i hordinary
      simp only [Option.some.injEq, Word.text.injEq]
      exact ⟨fun h => ⟨h, h ▸ hordinary⟩, fun h => h.1⟩
    · rename_i hordinary
      refine ⟨fun h => (by cases h), ?_⟩
      rintro ⟨h, hword⟩
      cases h
      exact absurd hword hordinary

/-- The words that name a server are found behind an `ON`. -/
theorem mem_serversOf (words : List Word) (word : List Char) :
    word ∈ serversOf words ↔ ∃ before on after, words = before ++ on :: .text word :: after ∧
      on.isKeyword "ON" = true ∧ Ordinary word := by
  induction words with
  | nil => simp [serversOf]
  | cons w rest ih =>
    cases rest with
    | nil =>
      refine ⟨fun h => absurd h List.not_mem_nil, ?_⟩
      rintro ⟨before, on, after, heq, -⟩
      have hlength := congrArg List.length heq
      simp at hlength
      omega
    | cons next more =>
      rw [serversOf_cons, List.mem_append, Option.mem_toList, ih]
      constructor
      · rintro (h | ⟨before, on, after, heq, hon, hword⟩)
        · split at h
          · rename_i hon
            rcases (ordinary?_eq_some next word).mp h with ⟨rfl, hword⟩
            exact ⟨[], w, more, rfl, hon, hword⟩
          · cases h
        · exact ⟨w :: before, on, after, by rw [heq, List.cons_append], hon, hword⟩
      · -- The `ON` is the first word, or it is found among the rest.
        rintro ⟨before, on, after, heq, hon, hword⟩
        cases before with
        | nil =>
          cases heq
          exact Or.inl (by rw [if_pos hon, ordinary?_eq_some]; exact ⟨rfl, hword⟩)
        | cons first others => exact Or.inr ⟨others, on, after, (List.cons.inj heq).2, hon, hword⟩

namespace ActionReader

/-- What holds of every action that has been read: an `ON` is not the last of its words, and its
    server is the last of the words that name one. So every `ON` is followed by the server exactly
    if no comma and no keyword stands directly behind one and they name the same server. -/
structure ServedLast (words : List Word) (a : FilterAction) : Prop where
  last : ∀ w ∈ words.getLast?, w.isKeyword "ON" = false
  server : a.server = (serversOf words).getLast?.map serverText
  served : Served words a ↔
    (∀ before on after, words = before ++ on :: after → on.isKeyword "ON" = true →
      ∃ word rest, after = .text word :: rest ∧ Ordinary word) ∧
    ∀ word ∈ serversOf words, ∀ other ∈ serversOf words, serverText word = serverText other

theorem isKeyword_on (keyword : String) (word : List Char)
    (h : Text.isKeyword keyword word = true)
    (hother : Text.isKeyword "ON" keyword.toList = false) : Text.isKeyword "ON" word = false :=
  (isKeyword_spelling keyword "ON" ⟨word, h⟩).trans hother

theorem ordinary?_keyword (keyword : String) (hkeyword : keyword ∈ actionKeywords)
    (word : List Char) (h : Text.isKeyword keyword word = true) :
    (Word.text word).ordinary? = none := by
  refine if_neg fun hordinary => ?_
  rw [hordinary keyword hkeyword] at h
  cases h

/-- At every move the reader knows whether it comes from an `ON`, and takes a word that is no
    keyword for the server exactly then. -/
theorem server_of_move (previous w : Word) (r next : ActionReader) (a : FilterAction)
    (hr : r.current = some a) (hmove : Move r a w next)
    (hslot : r.slot = .server ↔ previous.isKeyword "ON" = true) :
    (next.slot = .server ↔ w.isKeyword "ON" = true) ∧ ∃ a', next.current = some a' ∧
      a'.server = ((if previous.isKeyword "ON" then w.ordinary? else none).map serverText).or
        a.server := by
  have hnone : w.ordinary? = none →
      (if previous.isKeyword "ON" then w.ordinary? else none) = none := by
    intro h
    rw [h]
    split <;> rfl
  have helsewhere : r.slot ≠ .server →
      (if previous.isKeyword "ON" then w.ordinary? else none) = none :=
    fun h => if_neg fun hon => h (hslot.mpr hon)
  -- A keyword is no server wherever it stands; a name and a parameter are none for their place.
  cases hmove with
  | between h =>
    refine ⟨by simp [h, Word.isKeyword], a, hr, ?_⟩
    rw [hnone rfl]
    rfl
  | pause h =>
    refine ⟨by simp [Word.isKeyword], a, hr, ?_⟩
    rw [hnone rfl]
    rfl
  | «with» word h =>
    refine ⟨by simp [Word.isKeyword, isKeyword_on "WITH" word h (by decide)], a, hr, ?_⟩
    rw [hnone (ordinary?_keyword "WITH" (by decide) word h)]
    rfl
  | on word h =>
    refine ⟨by simp [Word.isKeyword, h], a, hr, ?_⟩
    rw [hnone (ordinary?_keyword "ON" (by decide) word h)]
    rfl
  | transient word h =>
    refine ⟨by simp [Word.isKeyword, isKeyword_on "TRANSIENT" word h (by decide)], _, rfl, ?_⟩
    rw [hnone (ordinary?_keyword "TRANSIENT" (by decide) word h)]
    rfl
  | callable word h =>
    refine ⟨by simp [Word.isKeyword, isKeyword_on "CALLABLE" word h (by decide)], _, rfl, ?_⟩
    rw [hnone (ordinary?_keyword "CALLABLE" (by decide) word h)]
    rfl
  | name word hword h =>
    refine ⟨by simp [Word.isKeyword, hword "ON" (by decide)], _, rfl, ?_⟩
    rw [helsewhere (by simp [h])]
    rfl
  | param word hword h =>
    refine ⟨by simp [Word.isKeyword, hword "ON" (by decide), h], a, hr, ?_⟩
    rw [helsewhere (by simp [h])]
    rfl
  | server word hword h =>
    refine ⟨by simp [Word.isKeyword, hword "ON" (by decide)], _, rfl, ?_⟩
    rw [if_pos (hslot.mp h), Word.ordinary?, if_pos hword]
    rfl

/-- Over the words of a clause the last word that names a server counts. The word before them is
    taken along, since the first of them may be a server because of it. -/
theorem server_of_moves (words : List Word) (r stop : ActionReader)
    (hmoves : Moves r words stop) (previous : Word)
    (hslot : r.slot = .server ↔ previous.isKeyword "ON" = true) (a b : FilterAction)
    (hr : r.current = some a) (hstop : stop.current = some b) :
    (stop.slot = .server ↔ ((previous :: words).getLast?.any (Word.isKeyword "ON")) = true) ∧
      b.server = ((serversOf (previous :: words)).getLast?.map serverText).or a.server := by
  induction hmoves generalizing previous a with
  | nil r =>
    rw [hr] at hstop
    cases hstop
    exact ⟨by simpa using hslot, rfl⟩
  | cons r next stop a' w words hr' hmove hrest ih =>
    have hsame : a = a' := Option.some.inj (hr.symm.trans hr')
    subst hsame
    rcases server_of_move previous w r next a hr hmove hslot with ⟨hnext, a', ha', hserver⟩
    rcases ih w hnext a' ha' hstop with ⟨hlast, hb⟩
    refine ⟨by simpa [List.getLast?_cons] using hlast, ?_⟩
    rw [hb, hserver, serversOf_cons]
    cases (if previous.isKeyword "ON" = true then w.ordinary? else none) with
    | none => rfl
    | some word =>
      rw [Option.toList_some, List.singleton_append, List.getLast?_cons]
      cases (serversOf (w :: words)).getLast? <;> rfl

theorem served_iff (words : List Word) (a : FilterAction)
    (hserver : a.server = (serversOf words).getLast?.map serverText) : Served words a ↔
      (∀ before on after, words = before ++ on :: after → on.isKeyword "ON" = true →
        ∃ word rest, after = .text word :: rest ∧ Ordinary word) ∧
      ∀ word ∈ serversOf words, ∀ other ∈ serversOf words, serverText word = serverText other := by
  constructor
  · intro h
    have hnamed : ∀ word ∈ serversOf words, a.server = some (serverText word) := by
      intro word hword
      rcases (mem_serversOf words word).mp hword with ⟨before, on, after, heq, hon, -⟩
      rcases h before on _ heq hon with ⟨word', rest, hafter, -, hserver'⟩
      cases hafter
      exact hserver'
    refine ⟨fun before on after heq hon => ?_, fun word hword other hother => ?_⟩
    · rcases h before on after heq hon with ⟨word, rest, hafter, hword, -⟩
      exact ⟨word, rest, hafter, hword⟩
    · exact Option.some.inj ((hnamed word hword).symm.trans (hnamed other hother))
  · rintro ⟨hfollowed, hsame⟩ before on after heq hon
    rcases hfollowed before on after heq hon with ⟨word, rest, rfl, hword⟩
    refine ⟨word, rest, rfl, hword, ?_⟩
    have hmem := (mem_serversOf words word).mpr ⟨before, on, rest, heq, hon, hword⟩
    rw [hserver, List.getLast?_eq_some_getLast (List.ne_nil_of_mem hmem), Option.map_some,
      hsame _ (List.getLast_mem _) word hmem]

/-- The server of an action that has been read. -/
theorem servedLast_of_readAs (verb : Verb) (words : List Word) (a : FilterAction)
    (h : ReadAs verb words a) : ServedLast words a := by
  rcases h with ⟨start, stop, b, hbegun, hmoves, hended⟩
  have hslot : start.slot = .server ↔ Word.comma.isKeyword "ON" = true := by
    simp [hbegun.slot, Word.isKeyword]
  rcases server_of_moves words start stop hmoves .comma hslot _ b hbegun.current hended.current
    with ⟨hlast, hserver⟩
  have hserver' : a.server = (serversOf words).getLast?.map serverText := by
    rw [hended.action, hserver, serversOf_comma, Option.or_none]
  refine ⟨fun w hw => ?_, hserver', served_iff words a hserver'⟩
  have hends : ¬ stop.slot = .server := by
    rcases hended.slot with h | h <;> simp [h]
  rw [hlast, List.getLast?_cons, Option.mem_def.mp hw] at hends
  exact eq_false_of_ne_true hends

end ActionReader

/-! ### Values of object filters -/

namespace ObjectValue

/-- A value is the last word of its clause or the tail of it. -/
def InOneWord (value : ObjectValue) (words : List Word) : Prop :=
  ∃ word, words.getLast? = some (.text word) ∧ value.chars <:+ word

/-- What holds of every value that has been read of a clause: it is given by the words of the clause
    put together. So it is in one word exactly if it is not longer than the last word. -/
structure ReadOf (value : ObjectValue) (words : List Word) : Prop where
  given : ∃ pieces : List (List Char), words = pieces.map .text ∧ value.GivenBy pieces.flatten
  inOneWord : value.InOneWord words ↔
    ∃ word, words.getLast? = some (.text word) ∧ value.chars.length ≤ word.length

/-- A value stands at the end of what it is given by, and something stands before it. -/
theorem suffix_of_givenBy (value : ObjectValue) (clause : List Char) (h : value.GivenBy clause) :
    value.chars <:+ clause := by
  cases h with
  | type keyword name => exact ⟨keyword ++ ['='], by rw [List.append_assoc]; rfl⟩
  | size keyword symbol digits op => exact ⟨keyword ++ symbol, List.append_assoc _ _ _⟩

/-- What stands before a value is a keyword and a sign of one or two characters. -/
theorem length_of_givenBy (value : ObjectValue) (clause : List Char) (h : value.GivenBy clause) :
    clause.length ≤ 13 + value.chars.length := by
  cases h with
  | type keyword name hkeyword hname =>
    have hkey := congrArg List.length hkeyword
    rw [Text.upper, List.length_map] at hkey
    simp [chars] at hkey ⊢
    omega
  | size keyword symbol digits op hkeyword hop hne hdigits hbound =>
    have hkey := congrArg List.length hkeyword
    rw [Text.upper, List.length_map] at hkey
    have hsymbol : symbol.length ≤ 2 := by
      rcases symbol_cases symbol op hop with rfl | rfl
      · decide
      · cases op <;> decide
    simp [chars] at hkey ⊢
    omega

theorem readOf_of_readObjectClause (filter : ObjectFilter) (words : List Word)
    (result : ObjectFilter) (h : readObjectClause filter words = .ok result) :
    ∃ value : ObjectValue, value.ReadOf words ∧ result = value.narrow filter := by
  rcases value_of_readObjectClause filter words result h with ⟨pieces, value, rfl, hgiven, rfl⟩
  refine ⟨value, ⟨⟨pieces, rfl, hgiven⟩, ?_⟩, rfl⟩
  constructor
  · rintro ⟨word, hword, hsuffix⟩
    exact ⟨word, hword, hsuffix.length_le⟩
  · rintro ⟨word, hword, hlength⟩
    refine ⟨word, hword, List.suffix_of_suffix_length_le (suffix_of_givenBy value _ hgiven) ?_
      hlength⟩
    rw [List.getLast?_map] at hword
    rcases Option.map_eq_some_iff.mp hword with ⟨last, hlast, heq⟩
    cases heq
    rcases List.getLast?_eq_some_iff.mp hlast with ⟨before, rfl⟩
    exact ⟨before.flatten, by rw [List.flatten_append, List.flatten_singleton]⟩

/-- The values of object filters that have been read: one for each clause, and of two of a kind the
    last counts. -/
theorem readOf_of_foldlM (groups : List (List Word)) (filter result : ObjectFilter)
    (h : groups.foldlM readObjectClause filter = .ok result) :
    ∃ values, List.Forall₂ ReadOf values groups ∧ result = values.foldl narrow filter := by
  induction groups generalizing filter with
  | nil =>
    cases h
    exact ⟨[], .nil, rfl⟩
  | cons group rest ih =>
    rw [List.foldlM_cons] at h
    rcases (Outcome.bind_eq_ok _ _ _).mp h with ⟨next, hnext, h⟩
    rcases readOf_of_readObjectClause filter group next hnext with ⟨value, hvalue, rfl⟩
    rcases ih _ h with ⟨values, hvalues, rfl⟩
    exact ⟨value :: values, .cons hvalue hvalues, rfl⟩

end ObjectValue

/-! ### Rules -/

/-- The clauses of the object filters, with the commas between them left out. -/
def objectClausesOf (words : List Word) : List (List Word) :=
  Text.splitWhere Word.isComma (objectsOf words)

/-- What a rule that has been read says of its text. Before the first verb there are commas only. Of
    every other word of the actions, a clause it is in has been read as one action: its server is
    the last word directly behind an `ON`, and an `ON` does not stand at the end or before a verb.
    Each clause of the object filters gives one value, the tail of its words put together. Every
    `ON` is followed by the server, and every value in one word, exactly under the conditions that
    are part of these statements. -/
theorem laxity_of_parse (text : String) (words : List Word) (rule : Rule)
    (hwritten : Word.Written words text.toList) (h : parse text = .ok rule) :
    (∀ w ∈ (clausesOf (actionsOf words)).1, w = .comma) ∧
      List.Forall₂ (fun clause a => ActionReader.ServedLast clause.2 a)
        (clausesOf (actionsOf words)).2 rule.actions ∧
      ∀ filter, rule.objectFilter = some filter → ∃ values,
        List.Forall₂ ObjectValue.ReadOf values (objectClausesOf words) ∧
        filter = values.foldl ObjectValue.narrow {} := by
  rw [Word.written_iff] at hwritten
  rcases parts_of_parse text rule h with ⟨sections, hsections, -, -, hactions, hfilter⟩
  rw [hwritten] at hsections
  rcases sections_of_ofWords words sections hsections with ⟨-, -, hactionsOf, hobjectsOf⟩
  rw [hactionsOf] at hactions
  rcases ActionReader.clauses_of_readActions _ _ hactions with ⟨-, hcommas, hall⟩
  refine ⟨hcommas, hall.imp fun clause a ha => ActionReader.servedLast_of_readAs _ _ a ha,
    fun filter hobject => ?_⟩
  rw [hobject] at hfilter
  rcases (Outcome.option_mapM_eq_some _ _ _).mp hfilter with ⟨objects, hobjects, hread⟩
  rw [hobjectsOf objects hobjects] at hread
  exact ObjectValue.readOf_of_foldlM _ {} filter hread

/-- Three times `ON`, of which the first is passed over and the last counts, and a number in two
    words. -/
theorem laxity_of_parse_divided :
    ∃ rule, parse "TENANT al DO SET c ON, callable ON Px ON q1 TO OBJECT_SIZE > 10 24" = .ok rule ∧
      rule.actions = [{ verb := .set, filterName := "c", server := some "q1", callable := true }] ∧
      rule.objectFilter = some { objectSize := some { operand := ">", value := 1024 } } ∧
      List.Forall₂ (fun clause a => ActionReader.ServedLast clause.2 a)
        [(Verb.set, Word.scan "c ON, callable ON Px ON q1".toList)] rule.actions ∧
      ∃ values, List.Forall₂ ObjectValue.ReadOf values [Word.scan "OBJECT_SIZE > 10 24".toList] ∧
        ({ objectSize := some { operand := ">", value := 1024 } } : ObjectFilter) =
          values.foldl ObjectValue.narrow {} := by
  -- The rule and its clauses are evaluated. How they belong together is the general theorem.
  have hread : (parse "TENANT al DO SET c ON, callable ON Px ON q1 TO OBJECT_SIZE > 10 24"
      ).toOption.map (fun rule => (rule.actions, rule.objectFilter)) =
        some ([{ verb := .set, filterName := "c", server := some "q1", callable := true }],
          some { objectSize := some { operand := ">", value := 1024 } }) := by
    decide +kernel
  cases hparse : parse "TENANT al DO SET c ON, callable ON Px ON q1 TO OBJECT_SIZE > 10 24" with
  | error fault =>
    rw [hparse] at hread
    cases hread
  | ok rule =>
    rw [hparse] at hread
    have hparts := Prod.mk.inj (Option.some.inj hread)
    have hclauses : (clausesOf (actionsOf (Word.scan
        "TENANT al DO SET c ON, callable ON Px ON q1 TO OBJECT_SIZE > 10 24".toList))).2 =
          [(Verb.set, Word.scan "c ON, callable ON Px ON q1".toList)] := by
      decide +kernel
    have hobjectClauses : objectClausesOf (Word.scan
        "TENANT al DO SET c ON, callable ON Px ON q1 TO OBJECT_SIZE > 10 24".toList) =
          [Word.scan "OBJECT_SIZE > 10 24".toList] := by
      decide +kernel
    rcases laxity_of_parse _ _ rule (Word.written_scan _) hparse with ⟨-, hactions, hobjects⟩
    exact ⟨rule, rfl, hparts.1, hparts.2, hclauses ▸ hactions,
      hobjectClauses ▸ hobjects _ hparts.2⟩

/-- Not every `ON` is followed by a server, and not every value is in one word. -/
theorem not_strict_of_parse :
    (¬ ∀ text rule, parse text = .ok rule →
      List.Forall₂ (fun clause a => Served clause.2 a)
        (clausesOf (actionsOf (Word.scan text.toList))).2 rule.actions) ∧
      ¬ ∀ text rule, parse text = .ok rule → rule.objectFilter.isSome = true →
        ∀ clause ∈ objectClausesOf (Word.scan text.toList),
          ∃ value : ObjectValue, value.ReadOf clause ∧ value.InOneWord clause := by
  have hok : ∀ text, (parse text).toOption.isSome = true → ∃ rule, parse text = .ok rule := by
    intro text h
    cases hparse : parse text with
    | error fault =>
      rw [hparse] at h
      cases h
    | ok rule => exact ⟨rule, rfl⟩
  constructor
  · intro h
    rcases hok "TENANT alice DO SET compress ON, DELETE cache" (by decide +kernel) with
      ⟨rule, hparse⟩
    have hall := h _ rule hparse
    have hclauses : (clausesOf (actionsOf (Word.scan
        "TENANT alice DO SET compress ON, DELETE cache".toList))).2 =
          [(Verb.set, [.text "compress".toList, .text "ON".toList, .comma]),
            (Verb.delete, [.text "cache".toList])] := by
      decide +kernel
    rw [hclauses] at hall
    rcases List.forall₂_cons_left_iff.mp hall with ⟨a, others, hserved, -⟩
    rcases hserved [.text "compress".toList] (.text "ON".toList) [.comma] rfl (by decide) with
      ⟨word, rest, hafter, -⟩
    cases hafter
  · intro h
    rcases hok "TENANT alice DO SET compress TO OBJECT_SIZE > 10 24" (by decide +kernel) with
      ⟨rule, hparse⟩
    have hsome : rule.objectFilter.isSome = true := by
      have hfilter : (parse "TENANT alice DO SET compress TO OBJECT_SIZE > 10 24").toOption.map
          (fun rule => rule.objectFilter.isSome) = some true := by
        decide +kernel
      rw [hparse] at hfilter
      exact Option.some.inj hfilter
    have hclauses : objectClausesOf (Word.scan
        "TENANT alice DO SET compress TO OBJECT_SIZE > 10 24".toList) =
          [["OBJECT_SIZE".toList, [('>' : Char)], "10".toList, "24".toList].map .text] := by
      decide +kernel
    rcases h _ rule hparse hsome _ (by rw [hclauses]; exact List.mem_singleton_self _) with
      ⟨value, hread, word, hword, hsuffix⟩
    -- The last word has two characters, which leaves too few for the whole clause.
    cases hword
    rcases hread.given with ⟨pieces, hpieces, hgiven⟩
    have hinjective : Function.Injective Word.text := fun first second => Word.text.inj
    rw [← List.map_injective_iff.mpr hinjective hpieces] at hgiven
    have hlength := hsuffix.length_le
    have hgivenLength := ObjectValue.length_of_givenBy value _ hgiven
    simp at hlength hgivenLength
    omega

end Rule

end StoragePolicy
