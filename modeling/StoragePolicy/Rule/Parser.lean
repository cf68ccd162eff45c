import StoragePolicy.Rule.Basic
import StoragePolicy.Rule.Word
import StoragePolicy.Condition.Parser

/-!
# Reading rules

A rule reads

`[FOR] targets [WHEN condition] DO actions [TO object filters]`

where targets, actions and object filters are separated by commas. A target is `kind:expr` or
`kind expr`. An action is a verb, a filter name, parameters after `WITH`, an execution server after
`ON`, and the flags `TRANSIENT` and `CALLABLE`. An object filter is `OBJECT_TYPE=name` or
`OBJECT_SIZE`, a comparison and a number. Keywords are read in any case.

## Main definitions

* `Rule.Fault`, `Rule.ParseError`: Why a text is not a rule.
* `Rule.Sections`: The four parts of a rule text.
* `Rule.ActionReader`: The state of reading actions, and its step.
* `Rule.parse`: Reads a rule.
-/

namespace StoragePolicy

namespace Rule

/-- Why a text is not a rule, its condition apart. -/
inductive Fault where
  | missingDo
  | emptyTarget
  | targetWithoutValue (word : String)
  | unexpectedTarget (words : String)
  | unknownTargetKind (word : String)
  | emptyTargetValue
  | containerWithoutTenant (expr : String)
  | unexpectedComma
  | verbExpected (word : String)
  | unexpectedInAction (word : String)
  | missingFilterName
  | missingServer
  | noAction
  | objectTypeWithoutName
  | objectSizeWithoutNumber
  | unknownSizeOperand (operand : String)
  | notASize (text : String)
  | unknownObjectFilter (clause : String)
  deriving Repr, DecidableEq

/-- Why a text is not a rule: the rule around the condition, or the condition. -/
inductive ParseError where
  | malformed (rule : String) (fault : Fault)
  | invalidCondition (text : String) (fault : Condition.Fault)
  deriving Repr, DecidableEq

/-- The wording for a container target without its tenant part. -/
def containerMessage (expr : String) : String :=
  "container target `" ++ expr ++ "` must look like tenant/container"

/-- The wording of a fault. -/
def Fault.message : Fault → String
  | .missingDo => "missing DO clause"
  | .emptyTarget => "empty target"
  | .targetWithoutValue word => "target `" ++ word ++ "` has no value"
  | .unexpectedTarget words => "unexpected target `" ++ words ++ "`"
  | .unknownTargetKind word => "unknown target kind `" ++ word ++ "`"
  | .emptyTargetValue => "target value is empty"
  | .containerWithoutTenant expr => containerMessage expr
  | .unexpectedComma => "unexpected comma"
  | .verbExpected word => "expected SET or DELETE, found `" ++ word ++ "`"
  | .unexpectedInAction word => "unexpected `" ++ word ++ "` in action"
  | .missingFilterName => "action is missing a filter name"
  | .missingServer => "ON requires an execution server"
  | .noAction => "DO clause has no action"
  | .objectTypeWithoutName => "OBJECT_TYPE expects =<name>"
  | .objectSizeWithoutNumber => "OBJECT_SIZE expects a size"
  | .unknownSizeOperand operand => "unknown size operand `" ++ operand ++ "`"
  | .notASize text => "`" ++ text ++ "` is not a size"
  | .unknownObjectFilter clause => "unknown object filter `" ++ clause ++ "`"

/-- The wording for an invalid condition text. -/
def conditionMessage (text : String) (fault : Condition.Fault) : String :=
  "invalid condition `" ++ text ++ "`: " ++ fault.message

/-- The wording of an error. -/
def ParseError.message : ParseError → String
  | .malformed rule fault => "malformed rule `" ++ rule ++ "`: " ++ fault.message
  | .invalidCondition text fault => conditionMessage text fault

/-- The parts of a rule text. -/
structure Sections where
  targets : List Word
  condition : Option (List Word)
  actions : List Word
  objectFilter : Option (List Word)

/-- Cuts a list of words at the first occurrence of a keyword; what follows it is the second
    part. -/
def cutAt (keyword : String) (words : List Word) : List Word × Option (List Word) :=
  match Text.cutFirst (Word.isKeyword keyword) words with
  | some (before, after) => (before, some after)
  | none => (words, none)

/-- Leaves out a `FOR` at the start of a rule. -/
def dropFor : List Word → List Word
  | [] => []
  | w :: rest => if w.isKeyword "FOR" then rest else w :: rest

/-- The parts of a rule: the first `DO` ends its head, the first `WHEN` in the head ends the
    targets, and the first `TO` after `DO` ends the actions. -/
def Sections.ofWords (words : List Word) : Except Fault Sections :=
  match Text.cutFirst (Word.isKeyword "DO") (dropFor words) with
  | none => .error .missingDo
  | some (head, tail) =>
    let (targets, condition) := cutAt "WHEN" head
    let (actions, objectFilter) := cutAt "TO" tail
    .ok { targets, condition, actions, objectFilter }

/-- The texts of words among which a comma has no place. -/
def texts (words : List Word) : Except Fault (List (List Char)) :=
  words.mapM fun w =>
    match w with
    | .text chars => .ok chars
    | .comma => .error .unexpectedComma

/-- Joins texts with one blank between them. -/
def spaced (pieces : List (List Char)) : String :=
  String.ofList (pieces.intersperse [' ']).flatten

/-- The kind word and the expression of a target. -/
def splitTarget : List (List Char) → Except Fault (List Char × List Char)
  | [single] =>
    match Text.cutFirst (· = ':') single with
    | some sides => .ok sides
    | none => .error (.targetWithoutValue (String.ofList single))
  | [kind, expr] => .ok (kind, expr.dropWhile (· = ':'))
  | [] => .error .emptyTarget
  | pieces => .error (.unexpectedTarget (spaced pieces))

/-- Reads one target. -/
def readTarget (words : List Word) : Except Fault RuleTarget := do
  let (kindWord, expr) ← splitTarget (← texts words)
  match TargetKind.ofKeyword? kindWord with
  | none => .error (.unknownTargetKind (String.ofList kindWord))
  | some kind =>
    if expr.isEmpty then .error .emptyTargetValue
    else if kind = .container && !expr.contains '/' then
      .error (.containerWithoutTenant (String.ofList expr))
    else return { kind := kind, expr := String.ofList expr }

/-- Reads the targets. -/
def readTargets (words : List Word) : Except Fault (List RuleTarget) :=
  (Text.splitWhere Word.isComma words).mapM readTarget

/-- What the next word of an action can be. -/
inductive Slot where
  /-- The filter name. -/
  | name
  /-- A parameter. -/
  | params
  /-- The execution server. -/
  | server
  /-- A keyword only. -/
  | flags
  deriving Repr, DecidableEq

/-- The state of reading actions: those finished (last first), the one being read with its
    parameters (last first), and what its next word can be. -/
structure ActionReader where
  finished : List FilterAction := []
  current : Option FilterAction := none
  params : List (List Char) := []
  slot : Slot := .flags
  deriving Repr, DecidableEq

namespace ActionReader

/-- Ends the action being read, if there is one. It must have its filter name, and a server if it
    ends in `ON`. -/
def finish (r : ActionReader) : Except Fault ActionReader :=
  match r.current with
  | none => .ok r
  | some a =>
    if r.slot = .name || a.filterName.isEmpty then .error .missingFilterName
    else if r.slot = .server then .error .missingServer
    else
      -- Parameters have been collected from the last one to the first.
      let params :=
        if r.params.isEmpty then a.params
        else some (String.ofList (r.params.reverse.intersperse [',']).flatten)
      .ok { r with finished := { a with params := params } :: r.finished, current := none,
                   params := [] }

/-- The filter name in a word, which may be written `filter=name`. -/
def filterName (word : List Char) : List Char :=
  match Text.cutFirst (· = '=') word with
  | some (key, name) => if Text.isKeyword "filter" key then name else word
  | none => word

/-- Reads a word that belongs to the action `a`. -/
def stepIn (r : ActionReader) (a : FilterAction) (word : List Char) : Except Fault ActionReader :=
  -- These words count wherever they stand, so that none of them is read as a name or a server.
  if Text.isKeyword "WITH" word then .ok { r with slot := .params }
  else if Text.isKeyword "ON" word then .ok { r with slot := .server }
  else if Text.isKeyword "TRANSIENT" word then
    .ok { r with current := some { a with transient := true }, slot := .flags }
  else if Text.isKeyword "CALLABLE" word then
    .ok { r with current := some { a with callable := true }, slot := .flags }
  else
    match r.slot with
    | .name =>
      .ok { r with current := some { a with filterName := String.ofList (filterName word) },
                   slot := .flags }
    | .params =>
      if word.contains '=' then .ok { r with params := word :: r.params }
      else .error (.unexpectedInAction (String.ofList word))
    | .server =>
      .ok { r with current := some { a with server := some (String.ofList (Text.lower word)) },
                   slot := .flags }
    | .flags => .error (.unexpectedInAction (String.ofList word))

/-- Reads the next word. A verb begins a new action; a comma ends what is being read, except that
    parameters go on after it. -/
def step (r : ActionReader) : Word → Except Fault ActionReader
  | .comma => .ok (if r.slot = .params then r else { r with slot := .flags })
  | .text word =>
    match Verb.ofKeyword? word with
    | some verb =>
      r.finish.map fun r =>
        { r with current := some { verb := verb, filterName := "" }, slot := .name }
    | none =>
      match r.current with
      | none => .error (.verbExpected (String.ofList word))
      | some a => r.stepIn a word

end ActionReader

/-- Reads the actions. -/
def readActions (words : List Word) : Except Fault (List FilterAction) := do
  let r ← words.foldlM ActionReader.step {}
  let r ← r.finish
  if r.finished.isEmpty then .error .noAction else return r.finished.reverse

/-- Reads an object size: a comparison and, from the first digit on, a number. -/
def readSize (text : List Char) : Except Fault ObjectSize :=
  let operand := text.takeWhile fun c => !c.isDigit
  let number := text.dropWhile fun c => !c.isDigit
  if number.isEmpty then .error .objectSizeWithoutNumber
  else
    match Comparison.ofSymbol? (String.ofList operand) with
    | none => .error (.unknownSizeOperand (String.ofList operand))
    | some op =>
      match Number.readNatural number with
      | none => .error (.notASize (String.ofList number))
      | some value => .ok { operand := op.symbol, value := value }

/-- Reads one object filter into those read before. A size is read in capital letters. -/
def readObjectClause (filter : ObjectFilter) (words : List Word) : Except Fault ObjectFilter := do
  let clause := (← texts words).flatten
  let capitals := Text.upper clause
  if "OBJECT_TYPE".toList.isPrefixOf capitals then
    match clause.drop "OBJECT_TYPE".length with
    | '=' :: c :: name => return { filter with objectType := some (String.ofList (c :: name)) }
    | _ => .error .objectTypeWithoutName
  else if "OBJECT_SIZE".toList.isPrefixOf capitals then
    let size ← readSize (capitals.drop "OBJECT_SIZE".length)
    return { filter with objectSize := some size }
  else .error (.unknownObjectFilter (String.ofList clause))

/-- Reads the object filters; of two of one kind the last counts. -/
def readObjectFilter (words : List Word) : Except Fault ObjectFilter :=
  (Text.splitWhere Word.isComma words).foldlM readObjectClause {}

/-- Reads the condition of a rule from its words. -/
def readCondition (rule : String) (words : List Word) : Except ParseError Condition :=
  match texts words with
  | .error fault => .error (.malformed rule fault)
  | .ok pieces =>
    let text := spaced pieces
    (Condition.parse text).mapError (.invalidCondition text)

/-- Reads a rule. The parts are read in the order targets, condition, actions, object filters, and
    the first fault is reported. -/
def parse (rule : String) : Except ParseError Rule := do
  let sections ← (Sections.ofWords (Word.scan rule.toList)).mapError (.malformed rule)
  let targets ← (readTargets sections.targets).mapError (.malformed rule)
  let condition ← sections.condition.mapM (readCondition rule)
  let actions ← (readActions sections.actions).mapError (.malformed rule)
  let objectFilter ←
    (sections.objectFilter.mapM readObjectFilter).mapError (.malformed rule)
  return { targets, condition, objectFilter, actions }

end Rule

end StoragePolicy
