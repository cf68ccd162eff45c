import StoragePolicy.Proofs.Rule.Sentence

/-!
# Actions are read as they are written

The reader of actions goes from word to word, and what a comma is to it depends on what it has read
before. Within parameters a comma is passed over; elsewhere it ends what is being read. Two things
said about a reader carry all of its run. Between actions it is `Done`: ending what is being read
gives the actions so far, and a comma changes nothing about that. Within an action that has its
name it is `Reading`: the action and the parameters are those of the phrases read so far, and the
next word is not expected to be a name or a server.

## Main definitions

* `ActionReader.Reads`: A reader goes over words to another reader.
* `ActionReader.Done`, `ActionReader.Reading`: A reader between actions and one within an action.

## Theorems

* `reading_params`, `reading_server`, `reading_transient`, `reading_callable`: The parts of an
  action.
* `done_words`: An action.
* `readActions_listed`: Actions with a comma between them are read in their order.
-/

namespace StoragePolicy

namespace Rule

/-! ### Words that are keywords or none -/

theorem ofKeyword?_spelling_verb (v : Verb) (s : Spelling v.keyword) :
    Verb.ofKeyword? s.1 = some v := by
  rw [Verb.ofKeyword?, isKeyword_spelling, isKeyword_spelling]
  exact Verb.ofKeyword?_keyword v

/-- A keyword of another kind is no verb. -/
theorem ofKeyword?_spelling_none (keyword : String) (s : Spelling keyword)
    (h : Verb.ofKeyword? keyword.toList = none) : Verb.ofKeyword? s.1 = none := by
  rw [Verb.ofKeyword?, isKeyword_spelling, isKeyword_spelling]
  exact h

theorem ofKeyword?_free (word : List Char) (h : Free word) : Verb.ofKeyword? word = none := by
  rw [Verb.ofKeyword?, h "SET" (by decide), h "DELETE" (by decide)]
  rfl

namespace ActionReader

/-! ### Single words -/

/-- A word that is no verb belongs to the action that is being read. -/
theorem step_text (r : ActionReader) (a : FilterAction) (word : List Char)
    (hr : r.current = some a) (hverb : Verb.ofKeyword? word = none) :
    r.step (.text word) = r.stepIn a word := by
  rw [step, hverb, hr]

theorem step_with (r : ActionReader) (a : FilterAction) (s : Spelling "WITH")
    (hr : r.current = some a) : r.step (.text s.1) = .ok { r with slot := .params } := by
  rw [step_text r a s.1 hr (ofKeyword?_spelling_none "WITH" s (by decide)), stepIn, if_pos s.2]

theorem step_on (r : ActionReader) (a : FilterAction) (s : Spelling "ON")
    (hr : r.current = some a) : r.step (.text s.1) = .ok { r with slot := .server } := by
  have hwith : Text.isKeyword "WITH" s.1 = false := isKeyword_spelling "ON" "WITH" s
  rw [step_text r a s.1 hr (ofKeyword?_spelling_none "ON" s (by decide)), stepIn, hwith,
    if_neg Bool.false_ne_true, if_pos s.2]

theorem step_transient (r : ActionReader) (a : FilterAction) (s : Spelling "TRANSIENT")
    (hr : r.current = some a) :
    r.step (.text s.1) = .ok { r with current := some { a with transient := true }
                                      slot := .flags } := by
  have hwith : Text.isKeyword "WITH" s.1 = false := isKeyword_spelling "TRANSIENT" "WITH" s
  have hon : Text.isKeyword "ON" s.1 = false := isKeyword_spelling "TRANSIENT" "ON" s
  rw [step_text r a s.1 hr (ofKeyword?_spelling_none "TRANSIENT" s (by decide)), stepIn, hwith,
    if_neg Bool.false_ne_true, hon, if_neg Bool.false_ne_true, if_pos s.2]

theorem step_callable (r : ActionReader) (a : FilterAction) (s : Spelling "CALLABLE")
    (hr : r.current = some a) :
    r.step (.text s.1) = .ok { r with current := some { a with callable := true }
                                      slot := .flags } := by
  have hwith : Text.isKeyword "WITH" s.1 = false := isKeyword_spelling "CALLABLE" "WITH" s
  have hon : Text.isKeyword "ON" s.1 = false := isKeyword_spelling "CALLABLE" "ON" s
  have htransient : Text.isKeyword "TRANSIENT" s.1 = false :=
    isKeyword_spelling "CALLABLE" "TRANSIENT" s
  rw [step_text r a s.1 hr (ofKeyword?_spelling_none "CALLABLE" s (by decide)), stepIn, hwith,
    if_neg Bool.false_ne_true, hon, if_neg Bool.false_ne_true, htransient,
    if_neg Bool.false_ne_true, if_pos s.2]

/-- A word that is no keyword is what is expected next. -/
theorem step_free (r : ActionReader) (a : FilterAction) (word : List Char)
    (hr : r.current = some a) (hfree : Free word) :
    r.step (.text word) =
      match r.slot with
      | .name =>
        .ok { r with current := some { a with filterName := String.ofList (filterName word) }
                     slot := .flags }
      | .params =>
        if word.contains '=' then .ok { r with params := word :: r.params }
        else .error (.unexpectedInAction (String.ofList word))
      | .server =>
        .ok { r with current := some { a with server := some (String.ofList (Text.lower word)) }
                     slot := .flags }
      | .flags => .error (.unexpectedInAction (String.ofList word)) := by
  have hwith := hfree "WITH" (by decide)
  have hon := hfree "ON" (by decide)
  have htransient := hfree "TRANSIENT" (by decide)
  have hcallable := hfree "CALLABLE" (by decide)
  rw [step_text r a word hr (ofKeyword?_free word hfree)]
  cases hslot : r.slot <;> simp [stepIn, hwith, hon, htransient, hcallable, hslot]

/-! ### Runs over words -/

/-- A reader goes over words to another reader. -/
def Reads (r : ActionReader) (words : List Word) (r' : ActionReader) : Prop :=
  words.foldlM step r = .ok r'

theorem reads_nil (r : ActionReader) : Reads r [] r := rfl

theorem reads_cons (r next r' : ActionReader) (w : Word) (words : List Word)
    (hw : r.step w = .ok next) (h : Reads next words r') : Reads r (w :: words) r' := by
  rw [Reads, List.foldlM_cons, hw]
  exact h

theorem reads_append (r next r' : ActionReader) (before after : List Word)
    (hbefore : Reads r before next) (hafter : Reads next after r') :
    Reads r (before ++ after) r' := by
  rw [Reads, List.foldlM_append, hbefore]
  exact hafter

/-! ### Within an action -/

/-- A reader within an action that has its name. -/
structure Reading (finished : List FilterAction) (a : FilterAction) (params : List (List Char))
    (r : ActionReader) : Prop where
  finished : r.finished = finished
  current : r.current = some a
  params : r.params = params
  named : a.filterName.isEmpty = false
  slot : r.slot = .flags ∨ r.slot = .params

/-- Parameters are collected, the commas between them passed over. -/
theorem reads_params (params : List Name) (r : ActionReader) (a : FilterAction)
    (hr : r.current = some a) (hslot : r.slot = .params)
    (hassigned : ∀ param ∈ params, '=' ∈ param.chars) :
    Reads r (listed (params.map fun param => [.text param.chars]))
      { r with params := (params.map Name.chars).reverse ++ r.params } := by
  induction params generalizing r with
  | nil => exact reads_nil r
  | cons param rest ih =>
    have hparam : r.step (.text param.chars) =
        .ok { r with params := param.chars :: r.params } := by
      rw [step_free r a param.chars hr param.free, hslot]
      exact if_pos (List.contains_iff_mem.mpr (hassigned param List.mem_cons_self))
    -- There is a comma only if another parameter follows.
    cases rest with
    | nil => exact reads_cons r _ _ _ [] hparam (reads_nil _)
    | cons next more =>
      have hcomma : step { r with params := param.chars :: r.params } .comma =
          .ok { r with params := param.chars :: r.params } := by
        rw [step, if_pos hslot]
      have hrest := ih { r with params := param.chars :: r.params } hr hslot fun other hother =>
        hassigned other (List.mem_cons_of_mem param hother)
      have hreverse : ((param :: next :: more).map Name.chars).reverse ++ r.params =
          ((next :: more).map Name.chars).reverse ++ param.chars :: r.params := by
        rw [List.map_cons, List.reverse_cons, List.append_assoc, List.singleton_append]
      rw [hreverse]
      exact reads_cons r _ _ _ _ hparam (reads_cons _ _ _ _ _ hcomma hrest)

variable (finished : List FilterAction) (a : FilterAction) (params : List (List Char))
  (r : ActionReader)

/-- The parameters of an action, if it has any. -/
theorem reading_params (p : Option ParamsPhrase) (h : Reading finished a [] r) :
    ∃ r', Reads r ((p.map ParamsPhrase.words).getD []) r' ∧
      Reading finished a ((p.map fun q => q.params.map Name.chars).getD []).reverse r' := by
  cases p with
  | none => exact ⟨r, reads_nil r, h⟩
  | some p =>
    have hparams := reads_params p.params { r with slot := .params } a h.current rfl p.assigned
    refine ⟨_, reads_cons r _ _ _ _ (step_with r a p.spelling h.current) hparams,
      h.finished, h.current, ?_, h.named, Or.inr rfl⟩
    simp only [h.params, List.append_nil, Option.map_some, Option.getD_some]

/-- The server of an action, if it has one. -/
theorem reading_server (p : Option ServerPhrase) (hnone : a.server = none)
    (h : Reading finished a params r) :
    ∃ r', Reads r ((p.map ServerPhrase.words).getD []) r' ∧
      Reading finished { a with server := p.map ServerPhrase.text } params r' := by
  cases p with
  | none =>
    refine ⟨r, reads_nil r, ?_⟩
    rw [Option.map_none, ← hnone]
    exact h
  | some p =>
    have hserver : step { r with slot := .server } (.text p.server.chars) =
        .ok { r with current := some { a with server := some p.text }, slot := .flags } :=
      step_free { r with slot := .server } a p.server.chars h.current p.server.free
    exact ⟨_, reads_cons r _ _ _ _ (step_on r a p.spelling h.current)
        (reads_cons _ _ _ _ _ hserver (reads_nil _)),
      h.finished, rfl, h.params, h.named, Or.inl rfl⟩

theorem reading_transient (flag : Option (Spelling "TRANSIENT")) (hfalse : a.transient = false)
    (h : Reading finished a params r) :
    ∃ r', Reads r (flag.toList.map fun s => .text s.1) r' ∧
      Reading finished { a with transient := flag.isSome } params r' := by
  cases flag with
  | none =>
    refine ⟨r, reads_nil r, ?_⟩
    rw [Option.isSome_none, ← hfalse]
    exact h
  | some s =>
    exact ⟨_, reads_cons r _ _ _ _ (step_transient r a s h.current) (reads_nil _),
      h.finished, rfl, h.params, h.named, Or.inl rfl⟩

theorem reading_callable (flag : Option (Spelling "CALLABLE")) (hfalse : a.callable = false)
    (h : Reading finished a params r) :
    ∃ r', Reads r (flag.toList.map fun s => .text s.1) r' ∧
      Reading finished { a with callable := flag.isSome } params r' := by
  cases flag with
  | none =>
    refine ⟨r, reads_nil r, ?_⟩
    rw [Option.isSome_none, ← hfalse]
    exact h
  | some s =>
    exact ⟨_, reads_cons r _ _ _ _ (step_callable r a s h.current) (reads_nil _),
      h.finished, rfl, h.params, h.named, Or.inl rfl⟩

/-! ### Between actions -/

/-- A reader that may end: ending what is being read gives these actions, the last first. -/
def Done (actions : List FilterAction) (r : ActionReader) : Prop :=
  ∃ slot, r.finish = .ok { finished := actions, current := none, params := [], slot := slot }

/-- The action that is being read is done, with its parameters joined. -/
theorem done_of_reading (h : Reading finished a params r) :
    Done ({ a with
      params := if params.isEmpty then a.params
        else some (String.ofList (params.reverse.intersperse [',']).flatten) } :: finished) r := by
  have hname : ¬ (decide (r.slot = .name) || a.filterName.isEmpty) = true := by
    rcases h.slot with hslot | hslot <;> simp [hslot, h.named]
  have hserver : r.slot ≠ .server := by
    rcases h.slot with hslot | hslot <;> simp [hslot]
  refine ⟨r.slot, ?_⟩
  simp only [finish, h.current, h.finished, h.params]
  rw [if_neg (by simpa using hname), if_neg hserver]

/-- A comma between actions leaves a reader done. -/
theorem done_comma (actions : List FilterAction) (h : Done actions r) :
    ∃ r', r.step .comma = .ok r' ∧ Done actions r' := by
  -- Behind parameters a comma is passed over. Elsewhere the slot changes, but not what has been
  -- read.
  by_cases hparams : r.slot = .params
  · exact ⟨r, by rw [step, if_pos hparams], h⟩
  · refine ⟨{ r with slot := .flags }, by rw [step, if_neg hparams], ?_⟩
    rcases h with ⟨slot, h⟩
    cases hcurrent : r.current with
    | none =>
      rw [finish, hcurrent] at h
      cases h
      exact ⟨.flags, rfl⟩
    | some a =>
      simp only [finish, hcurrent] at h
      split at h
      · exact nomatch h
      · rename_i hname
        split at h
        · exact nomatch h
        · cases h
          have hempty : a.filterName.isEmpty = false := by
            rw [Bool.or_eq_true, not_or] at hname
            simpa using hname.2
          refine ⟨.flags, ?_⟩
          simp only [finish, hempty]
          rfl

/-- The word of a filter gives its name. -/
theorem filterName_filterWord (p : ActionPhrase) : filterName p.filterWord = p.filter.chars := by
  cases hmarker : p.marker with
  | some marker =>
    have hequal : ∀ c ∈ marker.1, decide (c = '=') = false := by
      intro c hc
      rw [decide_eq_false_iff_not]
      rintro rfl
      exact not_mem_spelling "filter" marker '=' (by decide) hc
    rw [ActionPhrase.filterWord, hmarker]
    dsimp only
    rw [filterName, Text.cutFirst_append (· = '=') marker.1 p.filter.chars '=' hequal rfl]
    exact if_pos marker.2
  | none =>
    rw [ActionPhrase.filterWord, hmarker]
    dsimp only
    rw [filterName]
    split
    · rename_i key name hcut
      -- The name alone is not written as if it had the marker before it.
      refine if_neg fun hkey => p.bare hmarker ⟨key, hkey⟩ ?_
      rcases Text.eq_append_of_cutFirst _ _ key name hcut with ⟨separator, hseparator, heq⟩
      rw [of_decide_eq_true hseparator] at heq
      exact ⟨name, by rw [heq, List.append_assoc, List.singleton_append]⟩
    · rfl

/-- The word of a filter is no keyword. -/
theorem free_filterWord (p : ActionPhrase) : Free p.filterWord := by
  rw [ActionPhrase.filterWord]
  split
  · exact free_of_equal _ (List.mem_append_right _ List.mem_cons_self)
  · exact p.filter.free

theorem isEmpty_text (n : Name) : n.text.isEmpty = false := by
  rw [String.isEmpty_eq_false_iff, Name.text, Ne, String.ofList_eq_empty_iff]
  exact n.ne

/-- The parameters that have been collected, last first, are joined to what is denoted. -/
theorem joined_params (p : Option ParamsPhrase) :
    (if ((p.map fun q => q.params.map Name.chars).getD []).reverse.isEmpty then none
      else some (String.ofList ((((p.map fun q =>
        q.params.map Name.chars).getD []).reverse).reverse.intersperse [',']).flatten)) =
      p.map ParamsPhrase.text := by
  cases p with
  | none => rfl
  | some q =>
    have hne : ¬ (q.params.map Name.chars).reverse.isEmpty = true := by
      rw [List.isEmpty_iff, List.reverse_eq_nil_iff, List.map_eq_nil_iff]
      exact q.ne
    rw [Option.map_some, Option.getD_some, if_neg hne, List.reverse_reverse]
    rfl

/-- A reader that is done goes over an action and is done with it. -/
theorem done_words (p : ActionPhrase) (actions : List FilterAction) (h : Done actions r) :
    ∃ r', Reads r p.words r' ∧ Done (p.action :: actions) r' := by
  rcases h with ⟨slot, h⟩
  -- The verb ends what has been read before it.
  have hverb : r.step (.text p.spelling.1) =
      .ok ⟨actions, some { verb := p.verb, filterName := "" }, [], .name⟩ := by
    rw [step, ofKeyword?_spelling_verb, h]
    rfl
  have hname : step ⟨actions, some { verb := p.verb, filterName := "" }, [], .name⟩
      (.text p.filterWord) =
      .ok ⟨actions, some { verb := p.verb, filterName := p.filter.text }, [], .flags⟩ := by
    rw [step_free _ _ p.filterWord rfl (free_filterWord p), Name.text, ← filterName_filterWord]
  have hreading : Reading actions { verb := p.verb, filterName := p.filter.text } []
      ⟨actions, some { verb := p.verb, filterName := p.filter.text }, [], .flags⟩ :=
    ⟨rfl, rfl, rfl, isEmpty_text p.filter, Or.inl rfl⟩
  rcases reading_params _ _ _ p.params hreading with ⟨r₁, hreads₁, h₁⟩
  rcases reading_server _ _ _ _ p.server rfl h₁ with ⟨r₂, hreads₂, h₂⟩
  rcases reading_transient _ _ _ _ p.transient rfl h₂ with ⟨r₃, hreads₃, h₃⟩
  rcases reading_callable _ _ _ _ p.callable rfl h₃ with ⟨r₄, hreads₄, h₄⟩
  have hdone := done_of_reading _ _ _ _ h₄
  rw [joined_params] at hdone
  exact ⟨r₄, reads_cons _ _ _ _ _ hverb (reads_cons _ _ _ _ _ hname
    (reads_append _ _ _ _ _ hreads₁ (reads_append _ _ _ _ _ hreads₂
      (reads_append _ _ _ _ _ hreads₃ hreads₄)))), hdone⟩

/-- A reader that is done goes over actions with a comma between them and is done with them. -/
theorem done_listed (phrases : List ActionPhrase) (actions : List FilterAction)
    (h : Done actions r) :
    ∃ r', Reads r (listed (phrases.map ActionPhrase.words)) r' ∧
      Done ((phrases.map ActionPhrase.action).reverse ++ actions) r' := by
  induction phrases generalizing r actions with
  | nil => exact ⟨r, reads_nil r, h⟩
  | cons p rest ih =>
    rcases done_words r p actions h with ⟨next, hreads, hdone⟩
    have hreverse : ((p :: rest).map ActionPhrase.action).reverse ++ actions =
        (rest.map ActionPhrase.action).reverse ++ p.action :: actions := by
      rw [List.map_cons, List.reverse_cons, List.append_assoc, List.singleton_append]
    rw [hreverse]
    cases rest with
    | nil => exact ⟨next, by simpa [listed] using hreads, hdone⟩
    | cons q more =>
      rcases done_comma next _ hdone with ⟨after, hcomma, hafter⟩
      rcases ih after _ hafter with ⟨r', hrest, hdone'⟩
      exact ⟨r', reads_append _ _ _ _ _ hreads (reads_cons _ _ _ _ _ hcomma hrest), hdone'⟩

end ActionReader

/-- Actions with a comma between them are read in their order. -/
theorem readActions_listed (phrases : List ActionPhrase) (hne : phrases ≠ []) :
    readActions (listed (phrases.map ActionPhrase.words)) =
      .ok (phrases.map ActionPhrase.action) := by
  have hstart : ActionReader.Done [] {} := ⟨.flags, rfl⟩
  rcases ActionReader.done_listed {} phrases [] hstart with ⟨r, hreads, slot, hfinish⟩
  have hsome : (phrases.map ActionPhrase.action).reverse.isEmpty = false := by
    rw [List.isEmpty_eq_false_iff, Ne, List.reverse_eq_nil_iff, List.map_eq_nil_iff]
    exact hne
  rw [List.append_nil] at hfinish
  refine (Outcome.bind_eq_ok _ _ _).mpr ⟨r, hreads, (Outcome.bind_eq_ok _ _ _).mpr ⟨_, hfinish, ?_⟩⟩
  dsimp only
  rw [hsome, if_neg Bool.false_ne_true, List.reverse_reverse]
  rfl

end Rule

end StoragePolicy
