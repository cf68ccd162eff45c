import StoragePolicy.Engine.Monitoring

/-!
# The engine: deploying rules

A text is deployed line by line, and every line is a rule of its own. A line is first checked as a
whole: it must be a rule, its targets must exist and be enabled, and its filters must be known.
Only then is anything done, and from then on a failure of the storage side concerns one target and
one action alone. A failure of the store ends the line.

## Main definitions

* `Engine.LineReport`, `Engine.DeployReport`: What has become of one line and of all.
* `Engine.check`: The checks before anything is done.
* `Engine.deployLine`, `Engine.deploy`: Deploy one line and a text.
-/

namespace StoragePolicy

namespace Engine

/-- What has become of one line. -/
structure LineReport where
  rule : String
  isDynamic : Bool := false
  done : Deployment := {}
  error : Option EngineError := none
  deriving Repr, DecidableEq

namespace LineReport

/-- Whether the line was deployed without any failure. -/
def isSuccess (r : LineReport) : Bool := r.error.isNone && r.done.failures.isEmpty

/-- A report as JSON; what there is none of is left out. -/
def toJson (r : LineReport) : Json :=
  .object ([("rule", .string r.rule), ("dynamic", .bool r.isDynamic),
      ("policies", .array (r.done.policies.map Json.natural))] ++
    (if r.done.failures.isEmpty then []
      else [("failures", .array (r.done.failures.map TargetFailure.toJson))]) ++
    r.error.toList.map fun e => ("error", e.toJson))

end LineReport

/-- What has become of the lines of a text. -/
structure DeployReport where
  lines : List LineReport
  deriving Repr, DecidableEq

namespace DeployReport

/-- Whether all lines were deployed without any failure. -/
def isSuccess (r : DeployReport) : Bool := r.lines.all LineReport.isSuccess

/-- The first error that ended a line. -/
def firstError (r : DeployReport) : Option EngineError := r.lines.findSome? LineReport.error

/-- The new policies of all lines. -/
def policies (r : DeployReport) : List Nat := r.lines.flatMap fun line => line.done.policies

/-- A report as JSON. -/
def toJson (r : DeployReport) : Json :=
  .object [("lines", .array (r.lines.map LineReport.toJson))]

end DeployReport

/-- Looks up the filters of some actions. -/
def checkFilters : List FilterAction → Registry Unit
  | [] => pure ()
  | action :: rest => do
    discard (Registry.requireFilter action.filterName)
    checkFilters rest

/-- Checks a rule: all of its targets, then all of its filters. Gives the targets. -/
def check (directory : Directory) (rule : Rule) : Registry (List Target) := do
  let targets ← directory.resolveAll rule.targets
  checkFilters rule.actions
  return targets

/-- Takes actions on targets, given as pairs. A failure of the store ends the deployment, and what
    was done before stays in the report. -/
def deployStatic (objectFilter : Option ObjectFilter) :
    List (Target × FilterAction × Nat) → Deployment →
      Program interface (Deployment × Option EngineError)
  | [], done => pure (done, none)
  | (target, action, _) :: rest, done => do
    let outcome ← (dispatch target action objectFilter).run
    match outcome with
    | .ok (.installed id) =>
      deployStatic objectFilter rest { done with policies := done.policies ++ [id] }
    | .ok (.uninstalled _) => deployStatic objectFilter rest done
    | .error error =>
      if error.isStoreFailure then pure (done, some error)
      else
        deployStatic objectFilter rest
          { done with
            failures := done.failures ++
              [{ targetId := target.id, filterName := action.filterName, error }] }

/-- Deploys a rule that has been read. -/
def deployRule (directory : Directory) (settings : Settings) (line : String) (rule : Rule) :
    Program interface (Deployment × Option EngineError) := do
  match ← (ofRegistry (check directory rule)).run with
  | .error e => return ({}, some e)
  | .ok targets =>
    if rule.isDynamic then
      match ← (deployDynamic settings line rule targets).run with
      | .ok done => return (done, none)
      | .error e => return ({}, some e)
    else deployStatic rule.objectFilter (pairs rule targets) {}

/-- Deploys one line. -/
def deployLine (directory : Directory) (settings : Settings) (line : String) :
    Program interface LineReport :=
  match Rule.parse line with
  | .error e => pure { rule := line, error := some (.malformedRule e) }
  | .ok rule => do
    let (done, error) ← deployRule directory settings line rule
    return { rule := line, isDynamic := rule.isDynamic, done, error }

/-- The lines of a text that are rules: trimmed, without empty ones and comments. -/
def ruleLines (text : String) : List String :=
  ((Text.lines text.toList).map Text.trim).filterMap fun line =>
    if line.isEmpty || line.head? = some '#' then none else some (String.ofList line)

/-- Deploys lines one after the other. -/
def deployLines (directory : Directory) (settings : Settings) :
    List String → Program interface (List LineReport)
  | [] => pure []
  | line :: rest => do
    let report ← deployLine directory settings line
    let reports ← deployLines directory settings rest
    return report :: reports

/-- Deploys a text. -/
def deploy (directory : Directory) (settings : Settings) (text : String) :
    Program interface DeployReport := do
  return { lines := ← deployLines directory settings (ruleLines text) }

end Engine

end StoragePolicy
