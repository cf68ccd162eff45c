import StoragePolicy.Condition.Decode
import StoragePolicy.ObjectFilter

/-!
# Policy rules

A rule names targets and the actions to take on them. With a condition it is dynamic: the actions
are taken whenever the condition comes to hold. Without one they are taken at once.

## Main definitions

* `TargetKind`, `RuleTarget`: A target as written in a rule.
* `Verb`, `FilterAction`: An action on a filter.
* `Rule`: A rule.
-/

namespace StoragePolicy

/-- What kind of thing a rule is declared for. -/
inductive TargetKind where
  | tenant
  | container
  deriving Repr, DecidableEq, Inhabited

namespace TargetKind

/-- The keyword of a target kind. -/
def keyword : TargetKind → String
  | .tenant => "TENANT"
  | .container => "CONTAINER"

/-- Reads a keyword, in any case. -/
def ofKeyword? (text : List Char) : Option TargetKind :=
  if Text.isKeyword "TENANT" text then some .tenant
  else if Text.isKeyword "CONTAINER" text then some .container
  else none

/-- Reads a keyword as it is written in structured data, in capitals. -/
def ofName? (text : String) : Option TargetKind :=
  [TargetKind.tenant, .container].find? fun k => k.keyword = text

/-- A keyword is read back as its kind. -/
theorem ofKeyword?_keyword (k : TargetKind) : ofKeyword? k.keyword.toList = some k := by
  cases k <;> decide

end TargetKind

/-- A target as written in a rule: a tenant by id or name, or `tenant/container`. -/
structure RuleTarget where
  kind : TargetKind
  expr : String
  deriving Repr, DecidableEq

namespace RuleTarget

/-- The readable form of a target. -/
def text (t : RuleTarget) : String := t.kind.keyword ++ " " ++ t.expr

/-- A target as JSON. -/
def toJson (t : RuleTarget) : Json :=
  .object [("kind", .string t.kind.keyword), ("expr", .string t.expr)]

/-- The decoder of targets. -/
def decode : Decoder RuleTarget := fun r => do
  let given ← Decoder.fields
    [Decoder.field "kind" (Decoder.oneOf TargetKind.ofName?),
     Decoder.field "expr" Decoder.string] r
  return { kind := ← Decoder.required "kind" (Decoder.oneOf TargetKind.ofName?) given
           expr := ← Decoder.required "expr" Decoder.string given }

end RuleTarget

/-- What an action does with a filter. -/
inductive Verb where
  /-- Put the filter into the pipeline of the target. -/
  | set
  /-- Take the filter out of the pipeline of the target. -/
  | delete
  deriving Repr, DecidableEq, Inhabited

namespace Verb

/-- The keyword of a verb. -/
def keyword : Verb → String
  | .set => "SET"
  | .delete => "DELETE"

/-- Reads a keyword, in any case. -/
def ofKeyword? (text : List Char) : Option Verb :=
  if Text.isKeyword "SET" text then some .set
  else if Text.isKeyword "DELETE" text then some .delete
  else none

/-- Reads a keyword as it is written in structured data, in capitals. -/
def ofName? (text : String) : Option Verb :=
  [Verb.set, .delete].find? fun v => v.keyword = text

/-- A keyword is read back as its verb. -/
theorem ofKeyword?_keyword (v : Verb) : ofKeyword? v.keyword.toList = some v := by
  cases v <;> decide

end Verb

/-- An action of a rule. A transient one is taken once, after which its policy retires. -/
structure FilterAction where
  verb : Verb
  filterName : String
  server : Option String := none
  params : Option String := none
  transient : Bool := false
  callable : Bool := false
  deriving Repr, DecidableEq, Inhabited

namespace FilterAction

/-- An action as JSON. -/
def toJson (a : FilterAction) : Json :=
  .object [("action", .string a.verb.keyword), ("filter_name", .string a.filterName),
    ("execution_server", Json.ofOption Json.string a.server),
    ("params", Json.ofOption Json.string a.params), ("transient", .bool a.transient),
    ("callable", .bool a.callable)]

/-- The decoder of actions. -/
def decode : Decoder FilterAction := fun r => do
  let given ← Decoder.fields
    [Decoder.field "action" (Decoder.oneOf Verb.ofName?),
     Decoder.field "filter_name" Decoder.string,
     Decoder.field "execution_server" (Decoder.option Decoder.string),
     Decoder.field "params" (Decoder.option Decoder.string),
     Decoder.field "transient" Decoder.bool, Decoder.field "callable" Decoder.bool] r
  return { verb := ← Decoder.required "action" (Decoder.oneOf Verb.ofName?) given
           filterName := ← Decoder.required "filter_name" Decoder.string given
           server :=
             ← Decoder.withDefault "execution_server" none (Decoder.option Decoder.string) given
           params := ← Decoder.withDefault "params" none (Decoder.option Decoder.string) given
           transient := ← Decoder.withDefault "transient" false Decoder.bool given
           callable := ← Decoder.withDefault "callable" false Decoder.bool given }

end FilterAction

/-- A policy rule. -/
structure Rule where
  targets : List RuleTarget
  condition : Option Condition := none
  objectFilter : Option ObjectFilter := none
  actions : List FilterAction
  deriving Repr, Inhabited

namespace Rule

/-- A dynamic rule is one with a condition. -/
def isDynamic (rule : Rule) : Bool := rule.condition.isSome

/-- The written form of the condition. -/
def conditionText (rule : Rule) : Option String := rule.condition.map Condition.text

/-- The object type the rule is narrowed to. -/
def objectType (rule : Rule) : Option String := rule.objectFilter.bind fun f => f.objectType

/-- The object size the rule is narrowed to. -/
def objectSize (rule : Rule) : Option ObjectSize := rule.objectFilter.bind fun f => f.objectSize

/-- The decoder of rules. -/
def decode : Decoder Rule := fun r => do
  let given ← Decoder.fields
    [Decoder.field "targets" (Decoder.list RuleTarget.decode),
     Decoder.field "condition" (Decoder.option Condition.decode),
     Decoder.field "object_filter" (Decoder.option ObjectFilter.decode),
     Decoder.field "actions" (Decoder.list FilterAction.decode)] r
  return { targets := ← Decoder.required "targets" (Decoder.list RuleTarget.decode) given
           condition :=
             ← Decoder.withDefault "condition" none (Decoder.option Condition.decode) given
           objectFilter :=
             ← Decoder.withDefault "object_filter" none (Decoder.option ObjectFilter.decode) given
           actions := ← Decoder.required "actions" (Decoder.list FilterAction.decode) given }

end Rule

end StoragePolicy
