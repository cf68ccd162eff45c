import StoragePolicy.Proofs.Rule.Accepted
import StoragePolicy.Proofs.Rule.Parsed

/-!
# The parts of a text that has been read

What has been accepted need not be a sentence of the grammar, so what is known of it has to be found
from its words. The keywords `DO`, `WHEN` and `TO` cut the words into sections, and the verbs cut
the actions into clauses. Of a clause one action has been read, and nothing else has gone into it:
a reader that comes to a verb keeps only what it has finished.

Within a clause the reader makes one of eight moves at every word. What a clause can look like is
said by induction on these moves, not on the words.

## Main definitions

* `Rule.headOf`, `Rule.targetsOf`, `Rule.actionsOf`, `Rule.objectsOf`: The sections.
* `Rule.clausesOf`: The clauses of the actions.
* `ActionReader.Move`, `ActionReader.Moves`: What a reader does within a clause.
* `ActionReader.ReadAs`: A clause of which an action has been read.
* `ActionReader.RunBefore`, `ActionReader.RunWithin`: What a run over words comes to, by the place
  where it begins.

## Theorems

* `sections_of_ofWords`: The sections are those that the reader finds.
* `move_of_step`: Within a clause a reader makes one of the moves.
* `clauses_of_readActions`: The actions have been read of the clauses, one of each.
-/

namespace StoragePolicy

namespace Rule

/-- The verb that a word is, if it is one, in any case. -/
def Word.verb? : Word → Option Verb
  | .text chars => Verb.ofKeyword? chars
  | .comma => none

/-! ### Sections -/

/-- The words before the first `DO`, without a `FOR` at the start. -/
def headOf (words : List Word) : List Word :=
  (dropFor words).takeWhile fun w => !w.isKeyword "DO"

/-- The words of the head before a `WHEN`. -/
def targetsOf (words : List Word) : List Word :=
  (headOf words).takeWhile fun w => !w.isKeyword "WHEN"

/-- The words behind the first `DO`. -/
def tailOf (words : List Word) : List Word :=
  ((dropFor words).dropWhile fun w => !w.isKeyword "DO").tail

/-- The words behind the first `DO`, up to a `TO`. -/
def actionsOf (words : List Word) : List Word :=
  (tailOf words).takeWhile fun w => !w.isKeyword "TO"

/-- The words behind the first `TO` that stands behind the first `DO`. -/
def objectsOf (words : List Word) : List Word :=
  ((tailOf words).dropWhile fun w => !w.isKeyword "TO").tail

/-- Words are cut at the first occurrence of a keyword. -/
theorem cutAt_eq (keyword : String) (words : List Word) :
    cutAt keyword words = (words.takeWhile fun w => !w.isKeyword keyword,
      if words.any (Word.isKeyword keyword) then
        some (words.dropWhile fun w => !w.isKeyword keyword).tail
      else none) := by
  induction words with
  | nil => rfl
  | cons w rest ih =>
    by_cases hw : w.isKeyword keyword = true
    · simp [cutAt, Text.cutFirst, hw]
    · rw [Bool.not_eq_true] at hw
      rw [List.takeWhile_cons_of_pos (by simp [hw]), List.dropWhile_cons_of_pos (by simp [hw]),
        List.any_cons, hw, Bool.false_or]
      rw [cutAt] at ih ⊢
      rw [Text.cutFirst, hw, if_neg Bool.false_ne_true]
      cases hcut : Text.cutFirst (Word.isKeyword keyword) rest with
      | none =>
        rw [hcut] at ih
        rw [← (Prod.mk.inj ih).1, ← (Prod.mk.inj ih).2]
        rfl
      | some sides =>
        rw [hcut] at ih
        rw [← (Prod.mk.inj ih).1, ← (Prod.mk.inj ih).2]
        rfl

/-- The sections are those that the reader finds. -/
theorem sections_of_ofWords (words : List Word) (sections : Sections)
    (h : Sections.ofWords words = .ok sections) :
    sections.targets = targetsOf words ∧
      sections.condition.isSome = (headOf words).any (Word.isKeyword "WHEN") ∧
      sections.actions = actionsOf words ∧
      (∀ objects, sections.objectFilter = some objects → objects = objectsOf words) := by
  -- The words are cut at the action, and then each half is cut once.
  have hcut := cutAt_eq "DO" (dropFor words)
  rw [cutAt] at hcut
  rw [Sections.ofWords] at h
  split at h
  · cases h
  · rename_i head tail hsides
    rw [hsides] at hcut
    have hhead : head = headOf words := (Prod.mk.inj hcut).1
    have htail : tail = tailOf words := by
      have hsome := (Prod.mk.inj hcut).2
      split at hsome
      · exact Option.some.inj hsome
      · cases hsome
    rw [cutAt_eq, cutAt_eq, hhead, htail] at h
    cases h
    refine ⟨rfl, ?_, rfl, fun objects hobjects => ?_⟩
    · dsimp only
      split <;> simp_all
    · dsimp only at hobjects
      split at hobjects
      · exact (Option.some.inj hobjects).symm
      · cases hobjects

/-! ### Clauses -/

/-- The words before the first verb, and the verbs with the words that follow each of them up to the
    next one. -/
def clausesOf : List Word → List Word × List (Verb × List Word)
  | [] => ([], [])
  | w :: rest =>
    match w.verb? with
    | some verb => ([], (verb, (clausesOf rest).1) :: (clausesOf rest).2)
    | none => (w :: (clausesOf rest).1, (clausesOf rest).2)

/-- There is one clause for each verb, in their order. -/
theorem verbs_clausesOf (words : List Word) :
    (clausesOf words).2.map Prod.fst = words.filterMap Word.verb? := by
  induction words with
  | nil => rfl
  | cons w rest ih =>
    rw [clausesOf]
    cases hverb : w.verb? with
    | none => rw [List.filterMap_cons_none hverb, ← ih]
    | some verb => rw [List.filterMap_cons_some hverb, ← ih, List.map_cons]

/-- In a clause there are words of the text, and no verbs behind the first. -/
theorem of_mem_clausesOf (words : List Word) :
    (∀ w ∈ (clausesOf words).1, w ∈ words ∧ w.verb? = none) ∧
      ∀ clause ∈ (clausesOf words).2, ∀ w ∈ clause.2, w ∈ words ∧ w.verb? = none := by
  induction words with
  | nil => simp [clausesOf]
  | cons w rest ih =>
    have hbefore : ∀ v ∈ (clausesOf rest).1, v ∈ w :: rest ∧ v.verb? = none := fun v hv =>
      ⟨List.mem_cons_of_mem w (ih.1 v hv).1, (ih.1 v hv).2⟩
    have hclauses : ∀ clause ∈ (clausesOf rest).2, ∀ v ∈ clause.2, v ∈ w :: rest ∧ v.verb? = none :=
      fun clause hclause v hv =>
        ⟨List.mem_cons_of_mem w (ih.2 clause hclause v hv).1, (ih.2 clause hclause v hv).2⟩
    rw [clausesOf]
    cases hverb : w.verb? with
    | none => exact ⟨List.forall_mem_cons.mpr ⟨⟨List.mem_cons_self, hverb⟩, hbefore⟩, hclauses⟩
    | some verb => exact ⟨List.forall_mem_nil _, List.forall_mem_cons.mpr ⟨hbefore, hclauses⟩⟩

/-! ### Moves within a clause -/

/-- The keywords of actions. -/
def actionKeywords : List String := ["SET", "DELETE", "WITH", "ON", "TRANSIENT", "CALLABLE"]

/-- A word that is none of the keywords of actions, in any case. -/
def Ordinary (word : List Char) : Prop :=
  ∀ keyword ∈ actionKeywords, Text.isKeyword keyword word = false

instance : DecidablePred Ordinary := fun word =>
  inferInstanceAs (Decidable (∀ keyword ∈ actionKeywords, Text.isKeyword keyword word = false))

theorem ordinary_verb (word : List Char) (h : Verb.ofKeyword? word = none) :
    Text.isKeyword "SET" word = false ∧ Text.isKeyword "DELETE" word = false := by
  rw [Verb.ofKeyword?] at h
  split at h
  · cases h
  · rename_i hset
    split at h
    · cases h
    · rename_i hdelete
      exact ⟨eq_false_of_ne_true hset, eq_false_of_ne_true hdelete⟩

namespace ActionReader

/-- What a reader can do at a word that is no verb, while it reads the action `a`. -/
inductive Move (r : ActionReader) (a : FilterAction) : Word → ActionReader → Prop
  | between (h : r.slot = .params) : Move r a .comma r
  | pause (h : r.slot ≠ .params) : Move r a .comma { r with slot := .flags }
  | with (word : List Char) (h : Text.isKeyword "WITH" word = true) :
      Move r a (.text word) { r with slot := .params }
  | on (word : List Char) (h : Text.isKeyword "ON" word = true) :
      Move r a (.text word) { r with slot := .server }
  | transient (word : List Char) (h : Text.isKeyword "TRANSIENT" word = true) :
      Move r a (.text word) { r with current := some { a with transient := true }, slot := .flags }
  | callable (word : List Char) (h : Text.isKeyword "CALLABLE" word = true) :
      Move r a (.text word) { r with current := some { a with callable := true }, slot := .flags }
  | name (word : List Char) (hword : Ordinary word) (hslot : r.slot = .name) :
      Move r a (.text word)
        { r with current := some { a with filterName := String.ofList (filterName word) }
                 slot := .flags }
  | param (word : List Char) (hword : Ordinary word) (hslot : r.slot = .params)
      (hassigned : '=' ∈ word) :
      Move r a (.text word) { r with params := word :: r.params }
  | server (word : List Char) (hword : Ordinary word) (hslot : r.slot = .server) :
      Move r a (.text word)
        { r with current := some { a with server := some (String.ofList (Text.lower word)) }
                 slot := .flags }

/-- Within a clause a reader makes one of the moves. -/
theorem move_of_step (r : ActionReader) (a : FilterAction) (w : Word) (r' : ActionReader)
    (hr : r.current = some a) (hw : w.verb? = none) (h : r.step w = .ok r') : Move r a w r' := by
  cases w with
  | comma =>
    rw [step] at h
    cases h
    split
    · exact .between ‹_›
    · exact .pause ‹_›
  | text word =>
    have hverb := ordinary_verb word hw
    rw [step_text r a word hr hw, stepIn] at h
    split at h
    · cases h
      exact .with word ‹_›
    · split at h
      · cases h
        exact .on word ‹_›
      · split at h
        · cases h
          exact .transient word ‹_›
        · split at h
          · cases h
            exact .callable word ‹_›
          · -- A word that is no keyword is taken for what the one before it has announced.
            have hword : Ordinary word := by
              simp_all [Ordinary, actionKeywords]
            split at h
            · cases h
              exact .name word hword ‹_›
            · split at h
              · cases h
                exact .param word hword ‹_› (List.contains_iff_mem.mp ‹_›)
              · cases h
            · cases h
              exact .server word hword ‹_›
            · cases h

theorem exists_current_of_move (r : ActionReader) (a : FilterAction) (w : Word)
    (r' : ActionReader) (hr : r.current = some a) (h : Move r a w r') :
    ∃ a', r'.current = some a' ∧ a'.verb = a.verb ∧ r'.finished = r.finished := by
  cases h with
  | between | pause | «with» | on | param => exact ⟨a, hr, rfl, rfl⟩
  | transient | callable | name | server => exact ⟨_, rfl, rfl, rfl⟩

/-- A reader moves over the words of a clause to another reader. -/
inductive Moves : ActionReader → List Word → ActionReader → Prop
  | nil (r : ActionReader) : Moves r [] r
  | cons (r next r' : ActionReader) (a : FilterAction) (w : Word) (words : List Word)
      (hr : r.current = some a) (hw : Move r a w next) (h : Moves next words r') :
      Moves r (w :: words) r'

/-- A reader at the beginning of a clause, behind its verb. -/
structure Begun (verb : Verb) (r : ActionReader) : Prop where
  current : r.current = some { verb := verb, filterName := "" }
  params : r.params = []
  slot : r.slot = .name

/-- A reader at the end of a clause, where an action can end, and the action. -/
structure Ended (r : ActionReader) (b a : FilterAction) : Prop where
  current : r.current = some b
  named : b.filterName ≠ ""
  slot : r.slot = .flags ∨ r.slot = .params
  action : a = { b with
    params := if r.params.isEmpty then b.params
      else some (String.ofList (r.params.reverse.intersperse [',']).flatten) }

/-- A clause of which an action has been read. -/
def ReadAs (verb : Verb) (words : List Word) (a : FilterAction) : Prop :=
  ∃ start stop b, Begun verb start ∧ Moves start words stop ∧ Ended stop b a

/-- What is being read ends in an action. -/
theorem ended_of_finish (r : ActionReader) (b : FilterAction) (r' : ActionReader)
    (hr : r.current = some b) (h : r.finish = .ok r') :
    ∃ a, Ended r b a ∧
      r' = { r with finished := a :: r.finished, current := none, params := [] } := by
  simp only [finish, hr] at h
  split at h
  · cases h
  · rename_i hname
    split at h
    · cases h
    · rename_i hserver
      cases h
      rw [Bool.or_eq_true, not_or, decide_eq_true_eq] at hname
      refine ⟨_, ⟨hr, ?_, ?_, rfl⟩, rfl⟩
      · simpa using hname.2
      · cases hslot : r.slot <;> simp_all

/-! ### Runs over clauses -/

/-- The actions read of clauses, one of each. -/
def ReadAll (clauses : List (Verb × List Word)) (actions : List FilterAction) : Prop :=
  List.Forall₂ (fun clause a => ReadAs clause.1 clause.2 a) clauses actions

/-- What a run comes to that begins before the first clause: commas stand there, and an action is
    read of every clause. -/
def RunBefore (words : List Word) (r last : ActionReader) : Prop :=
  (∀ w ∈ (clausesOf words).1, w = .comma) ∧
    ∃ actions, ReadAll (clausesOf words).2 actions ∧ last.finished = actions.reverse ++ r.finished

/-- What a run comes to that begins within a clause: the action that is being read ends first. -/
def RunWithin (words : List Word) (r last : ActionReader) : Prop :=
  ∃ stop b first actions, Moves r (clausesOf words).1 stop ∧ Ended stop b first ∧
    ReadAll (clausesOf words).2 actions ∧ last.finished = actions.reverse ++ first :: r.finished

section Run

variable (rest : List Word) (r next last : ActionReader)

/-- A verb begins a clause. -/
theorem runBefore_verb (w : Word) (verb : Verb) (hverb : w.verb? = some verb)
    (hbegun : Begun verb next) (hfinished : next.finished = r.finished)
    (h : RunWithin rest next last) : RunBefore (w :: rest) r last := by
  rcases h with ⟨stop, b, first, actions, hmoves, hended, hall, hactions⟩
  simp only [RunBefore, clausesOf, hverb]
  refine ⟨List.forall_mem_nil _, first :: actions,
    .cons ⟨next, stop, b, hbegun, hmoves, hended⟩ hall, ?_⟩
  rw [hactions, hfinished, List.reverse_cons, List.append_assoc, List.singleton_append]

/-- A verb ends the clause before it. -/
theorem runWithin_verb (w : Word) (verb : Verb) (hverb : w.verb? = some verb)
    (a before : FilterAction) (hbefore : Ended r a before) (hbegun : Begun verb next)
    (hfinished : next.finished = before :: r.finished) (h : RunWithin rest next last) :
    RunWithin (w :: rest) r last := by
  rcases h with ⟨stop, b, first, actions, hmoves, hended, hall, hactions⟩
  simp only [RunWithin, clausesOf, hverb]
  refine ⟨r, a, before, first :: actions, .nil r, hbefore,
    .cons ⟨next, stop, b, hbegun, hmoves, hended⟩ hall, ?_⟩
  rw [hactions, hfinished, List.reverse_cons, List.append_assoc, List.singleton_append]

theorem runBefore_comma (hfinished : next.finished = r.finished) (h : RunBefore rest next last) :
    RunBefore (.comma :: rest) r last := by
  rcases h with ⟨hcommas, actions, hall, hactions⟩
  rw [hfinished] at hactions
  exact ⟨List.forall_mem_cons.mpr ⟨rfl, hcommas⟩, actions, hall, hactions⟩

theorem runWithin_move (w : Word) (hverb : w.verb? = none) (a : FilterAction)
    (hr : r.current = some a) (hmove : Move r a w next) (h : RunWithin rest next last) :
    RunWithin (w :: rest) r last := by
  rcases h with ⟨stop, b, first, actions, hmoves, hended, hall, hactions⟩
  rcases exists_current_of_move r a w next hr hmove with ⟨-, -, -, hfinished⟩
  simp only [RunWithin, clausesOf, hverb]
  exact ⟨stop, b, first, actions, .cons r next stop a w _ hr hmove hmoves, hended, hall,
    by rw [hactions, hfinished]⟩

end Run

/-- A run to an end goes over clauses, of each of which an action is read. -/
theorem readAll_of_reads (words : List Word) (r r' last : ActionReader) (h : Reads r words r')
    (hlast : r'.finish = .ok last) :
    (r.current = none → r.params = [] → RunBefore words r last) ∧
      ∀ a, r.current = some a → RunWithin words r last := by
  induction words generalizing r with
  | nil =>
    have hsame : r = r' := Except.ok.inj h
    subst hsame
    refine ⟨fun hnone _ => ⟨List.forall_mem_nil _, [], .nil, ?_⟩, fun a ha => ?_⟩
    · rw [finish, hnone] at hlast
      cases hlast
      rfl
    · rcases ended_of_finish r a last ha hlast with ⟨first, hended, rfl⟩
      exact ⟨r, a, first, [], .nil r, hended, .nil, rfl⟩
  | cons w rest ih =>
    rw [Reads, List.foldlM_cons] at h
    rcases (Outcome.bind_eq_ok _ _ _).mp h with ⟨next, hstep, hrest⟩
    -- A verb ends the clause before it and begins one; any other word is a move within its clause.
    cases hverb : w.verb? with
    | some verb =>
      cases w with
      | comma => cases hverb
      | text word =>
        rw [step, show Verb.ofKeyword? word = some verb from hverb] at hstep
        rcases (Outcome.map_eq_ok _ _ _).mp hstep with ⟨ended, hfinish, rfl⟩
        have hwithin := (ih _ hrest).2 _ rfl
        refine ⟨fun hnone hparams => ?_, fun a ha => ?_⟩
        · rw [finish, hnone] at hfinish
          cases hfinish
          refine runBefore_verb rest r _ last _ verb hverb ?_ ?_ hwithin
          · exact ⟨rfl, hparams, rfl⟩
          · rfl
        · rcases ended_of_finish r a ended ha hfinish with ⟨before, hbefore, rfl⟩
          exact runWithin_verb rest r _ last _ verb hverb a before hbefore ⟨rfl, rfl, rfl⟩ rfl
            hwithin
    | none =>
      refine ⟨fun hnone hparams => ?_, fun a ha => ?_⟩
      · -- Before the first verb there are commas only.
        cases w with
        | text word =>
          rw [step, show Verb.ofKeyword? word = none from hverb, hnone] at hstep
          cases hstep
        | comma =>
          rw [step] at hstep
          cases hstep
          refine runBefore_comma rest r _ last ?_
            ((ih _ hrest).1 (by split <;> exact hnone) (by split <;> exact hparams))
          split <;> rfl
      · have hmove := move_of_step r a w next ha hverb hstep
        rcases exists_current_of_move r a w next ha hmove with ⟨a', ha', -, -⟩
        exact runWithin_move rest r next last w hverb a ha hmove ((ih next hrest).2 a' ha')

/-- The actions have been read of the clauses, one of each, and before the first of them there are
    commas only. -/
theorem clauses_of_readActions (words : List Word) (actions : List FilterAction)
    (h : readActions words = .ok actions) :
    actions ≠ [] ∧ (∀ w ∈ (clausesOf words).1, w = .comma) ∧
      ReadAll (clausesOf words).2 actions := by
  rw [readActions] at h
  rcases (Outcome.bind_eq_ok _ _ _).mp h with ⟨r, hreads, h⟩
  rcases (Outcome.bind_eq_ok _ _ _).mp h with ⟨last, hlast, h⟩
  rcases (readAll_of_reads words {} r last hreads hlast).1 rfl rfl with
    ⟨hcommas, read, hall, hactions⟩
  split at h
  · cases h
  · rename_i hempty
    cases h
    rw [hactions, List.append_nil] at hempty ⊢
    rw [List.reverse_reverse]
    refine ⟨?_, hcommas, hall⟩
    rintro rfl
    exact hempty rfl

end ActionReader

/-! ### Object filters -/

/-- What a clause of the object filters gives: the name of a type, or a size, of which the digits
    are kept as they are written. -/
inductive ObjectValue where
  | type (name : List Char)
  | size (op : Comparison) (digits : List Char)

namespace ObjectValue

/-- The characters that a value is written with, without what stands before it. -/
def chars : ObjectValue → List Char
  | .type name => name
  | .size _ digits => digits

/-- An object filter with a value put in. -/
def narrow (filter : ObjectFilter) : ObjectValue → ObjectFilter
  | .type name => { filter with objectType := some (String.ofList name) }
  | .size op digits =>
    { filter with objectSize := some ⟨op.symbol, Number.digitsValue digits⟩ }

/-- Characters of a clause that give a value. -/
inductive GivenBy : ObjectValue → List Char → Prop
  | type (keyword name : List Char) (hkeyword : Text.upper keyword = "OBJECT_TYPE".toList)
      (hname : name ≠ []) : GivenBy (.type name) (keyword ++ '=' :: name)
  | size (keyword symbol digits : List Char) (op : Comparison)
      (hkeyword : Text.upper keyword = "OBJECT_SIZE".toList)
      (hop : Comparison.ofSymbol? (String.ofList symbol) = some op) (hne : digits ≠ [])
      (hdigits : ∀ c ∈ digits, c.isDigit = true)
      (hbound : Number.digitsValue digits ≤ Number.maxWord) :
      GivenBy (.size op digits) (keyword ++ (symbol ++ digits))

end ObjectValue

/-- Characters that are in capitals no letters are what they are in capitals. -/
theorem upper_eq_self (text : List Char) (h : ∀ c ∈ Text.upper text, c.isUpper = false) :
    Text.upper text = text := by
  refine (List.map_congr_left fun c hc => ?_).trans (List.map_id text)
  have halpha := h c.toUpper (List.mem_map_of_mem hc)
  rw [Char.isUpper_toUpper_eq_isAlpha, Char.isAlpha, Bool.or_eq_false_iff] at halpha
  exact Char.toUpper_eq_of_not_isLower (by rw [halpha.2]; exact Bool.false_ne_true)

theorem isUpper_of_isDigit (c : Char) (h : c.isDigit = true) : c.isUpper = false := by
  refine eq_false_of_ne_true fun hupper => ?_
  simp only [Char.isDigit, Char.isUpper, Bool.and_eq_true, decide_eq_true_eq, ge_iff_le,
    UInt32.le_iff_toNat_le] at h hupper
  exact absurd (Nat.le_trans hupper.1 h.2) (by decide)

theorem isUpper_of_known (symbol : List Char) (op : Comparison)
    (known : Comparison.ofSymbol? (String.ofList symbol) = some op) :
    ∀ c ∈ symbol, c.isUpper = false := by
  have hall : symbol.all (fun c => !c.isUpper) = true := by
    rcases symbol_cases symbol op known with rfl | rfl
    · decide
    · cases op <;> decide
  exact fun c hc => by simpa using List.all_eq_true.mp hall c hc

/-- A number that begins with a digit is written with digits only. -/
theorem digits_of_readNatural (c : Char) (rest : List Char) (value : Nat)
    (hc : c.isDigit = true) (h : Number.readNatural (c :: rest) = some value) :
    (∀ d ∈ c :: rest, d.isDigit = true) ∧ value = Number.digitsValue (c :: rest) ∧
      Number.digitsValue (c :: rest) ≤ Number.maxWord := by
  have hplus : c ≠ '+' := by
    rintro rfl
    exact absurd hc (by decide)
  simp only [Number.readNatural] at h
  split at h
  · rename_i heq
    exact absurd (List.cons.inj heq).1 hplus
  · split at h
    · cases h
    · rename_i hall
      split at h
      · rename_i hbound
        cases h
        rw [Bool.or_eq_true, not_or] at hall
        exact ⟨List.all_eq_true.mp (by simpa using hall.2), rfl, hbound⟩
      · cases h

/-- A size has been read of a comparison and digits. -/
theorem parts_of_readSize (text : List Char) (size : ObjectSize) (h : readSize text = .ok size) :
    ∃ symbol digits op, text = symbol ++ digits ∧
      Comparison.ofSymbol? (String.ofList symbol) = some op ∧ digits ≠ [] ∧
      (∀ c ∈ digits, c.isDigit = true) ∧ Number.digitsValue digits ≤ Number.maxWord ∧
      size = { operand := op.symbol, value := Number.digitsValue digits } := by
  simp only [readSize] at h
  split at h
  · cases h
  · rename_i hne
    split at h
    · cases h
    · rename_i op hop
      split at h
      · cases h
      · rename_i value hvalue
        cases h
        -- What stands behind the comparison is not empty, and begins with a digit.
        cases hdigits : text.dropWhile fun c => !c.isDigit with
        | nil =>
          rw [hdigits] at hne
          exact absurd rfl hne
        | cons c rest =>
          have hc : c.isDigit = true := by
            have hhead := List.head?_dropWhile_not (fun c : Char => !c.isDigit) text
            rw [hdigits] at hhead
            simpa using hhead
          rw [hdigits] at hvalue
          rcases digits_of_readNatural c rest value hc hvalue with ⟨hall, rfl, hbound⟩
          refine ⟨_, c :: rest, op, ?_, hop, List.cons_ne_nil c rest, hall, hbound, rfl⟩
          rw [← hdigits, List.takeWhile_append_dropWhile]

/-- What has been read of words is the texts among which there is no comma. -/
theorem eq_map_of_texts (words : List Word) (pieces : List (List Char))
    (h : texts words = .ok pieces) : words = pieces.map .text := by
  rw [texts, Outcome.mapM_eq_ok] at h
  induction h with
  | nil => rfl
  | @cons w piece rest others hw hrest ih =>
    cases w with
    | comma => cases hw
    | text chars =>
      cases hw
      rw [ih, List.map_cons]

/-- A clause of the object filters gives one value, by what its words are put together. -/
theorem value_of_readObjectClause (filter : ObjectFilter) (words : List Word)
    (result : ObjectFilter) (h : readObjectClause filter words = .ok result) :
    ∃ (pieces : List (List Char)) (value : ObjectValue), words = pieces.map .text ∧
      value.GivenBy pieces.flatten ∧ result = value.narrow filter := by
  rw [readObjectClause] at h
  rcases (Outcome.bind_eq_ok _ _ _).mp h with ⟨pieces, hpieces, h⟩
  have hwords := eq_map_of_texts words pieces hpieces
  dsimp only at h
  have hsides : ∀ keyword : String, keyword.toList.isPrefixOf (Text.upper pieces.flatten) = true →
      Text.upper (pieces.flatten.take keyword.length) = keyword.toList := by
    intro keyword hprefix
    rw [Text.upper, List.map_take, ← String.length_toList]
    exact (List.prefix_iff_eq_take.mp (List.isPrefixOf_iff_prefix.mp hprefix)).symm
  split at h
  · rename_i hprefix
    split at h
    · rename_i c name hdrop
      cases h
      have hclause := List.take_append_drop "OBJECT_TYPE".length pieces.flatten
      rw [hdrop] at hclause
      refine ⟨pieces, .type (c :: name), hwords, ?_, rfl⟩
      rw [← hclause]
      exact .type _ _ (hsides "OBJECT_TYPE" hprefix) (List.cons_ne_nil c name)
    · cases h
  · split at h
    · rename_i hprefix
      rcases (Outcome.bind_eq_ok _ _ _).mp h with ⟨size, hsize, h⟩
      cases h
      rcases parts_of_readSize _ size hsize with
        ⟨symbol, digits, op, htext, hop, hne, hdigits, hbound, rfl⟩
      -- Behind the keyword there are no letters, so that capitals make no difference.
      have hupper : Text.upper (pieces.flatten.drop "OBJECT_SIZE".length) =
          symbol ++ digits := by
        rw [← htext, Text.upper, Text.upper, List.map_drop]
      have hself := upper_eq_self (pieces.flatten.drop "OBJECT_SIZE".length) fun c hc => by
        rw [hupper] at hc
        rcases List.mem_append.mp hc with hc | hc
        · exact isUpper_of_known symbol op hop c hc
        · exact isUpper_of_isDigit c (hdigits c hc)
      have hclause := List.take_append_drop "OBJECT_SIZE".length pieces.flatten
      rw [← hself, hupper] at hclause
      refine ⟨pieces, .size op digits, hwords, ?_, rfl⟩
      rw [← hclause]
      exact .size _ symbol digits op (hsides "OBJECT_SIZE" hprefix) hop hne hdigits hbound
    · cases h

end Rule

end StoragePolicy
