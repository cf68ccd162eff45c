import StoragePolicy.Engine.Monitoring
import StoragePolicy.Sample.Parser

/-!
# The engine: listing, changing and feeding policies

Static policies are listed with the readable names of their targets, and dynamic ones with the
state of their monitors. Metric lines are taken in one by one, and those that cannot be read are
reported.

## Main definitions

* `Engine.listStatic`, `Engine.entry`, `Engine.updateEntry`, `Engine.deleteEntry`: Static policies.
* `Engine.listDynamic`, `Engine.record`: Dynamic policies.
* `Engine.ingest`: Takes in metric lines.
* `Engine.objectType`, `Engine.slo`, `Engine.deleteSlo`: What must exist to be answered.
-/

namespace StoragePolicy

namespace Engine

/-- The static policies of one target or of all, in execution order. -/
def listStatic (directory : Directory) (targetId : Option String) : Registry (List StaticView) := do
  let names ← directory.names
  let listed ← Registry.listStatic targetId
  return listed.map fun e =>
    { id := e.2.policyId, targetId := e.1, targetName := Tenants.displayName names e.1,
      entry := e.2 }

/-- An entry with the readable name of its target, which is read now. -/
def view (directory : Directory) (targetId : String) (id : Nat) (entry : StaticEntry) :
    Registry StaticView := do
  return { id, targetId, targetName := ← directory.displayName targetId, entry }

/-- The static policy of an id. -/
def entry (directory : Directory) (targetId : String) (id : Nat) : Registry StaticView := do
  let stored ← Registry.getStatic targetId id
  match stored with
  | some entry => view directory targetId id entry
  | none => throw (.unknownEntry targetId id)

/-- Puts a patch over a static policy. -/
def updateEntry (directory : Directory) (targetId : String) (id : Nat)
    (patch : List (String × Json)) : Registry StaticView := do
  let entry ← Registry.updateStatic targetId id patch
  view directory targetId id entry

/-- Deletes a static policy. -/
def deleteEntry (targetId : String) (id : Nat) : Registry Unit := do
  let existed ← Registry.deleteStatic targetId id
  if !existed then throw (.unknownEntry targetId id)

/-- Records with the state of their monitors. -/
def recordViews : List PolicyRecord → Program interface (List RecordView)
  | [] => pure []
  | record :: rest => do
    let running : Bool ← ask (.isLive record.id)
    let views ← recordViews rest
    return { record, running } :: views

/-- All dynamic policies, in ascending order of their ids. -/
def listDynamic : Engine (List RecordView) := do
  let records ← ofRegistry Registry.listDynamic
  ExceptT.lift (recordViews records)

/-- The dynamic policy of an id. -/
def record (id : Nat) : Engine RecordView := do
  let stored ← ofRegistry (Registry.getDynamic id)
  match stored with
  | none => throw (.unknownRecord id)
  | some record => do
    let running : Bool ← ExceptT.lift (ask (.isLive id))
    return { record, running }

/-- What has become of metric lines: how many were samples, how many monitors took one, and why the
    other lines are none. -/
structure IngestReport where
  samples : Nat := 0
  delivered : Nat := 0
  rejected : List EngineError := []
  deriving Repr, DecidableEq

/-- A report as JSON; without rejected lines there is no such member. -/
def IngestReport.toJson (r : IngestReport) : Json :=
  .object ([("samples", .natural r.samples), ("delivered", .natural r.delivered)] ++
    (if r.rejected.isEmpty then []
      else [("rejected", .array (r.rejected.map fun e => .string e.message))]))

/-- Takes in one metric line; gives how many monitors took the sample. -/
def ingestLine (line : String) : Engine Nat :=
  match Sample.parse line with
  | .error e => throw (.malformedSample e)
  | .ok sample => ExceptT.lift (ask (.deliver sample))

/-- Takes in metric lines one after the other. -/
def ingestLines : List String → IngestReport → Program interface IngestReport
  | [], report => pure report
  | line :: rest, report => do
    match ← (ingestLine line).run with
    | .ok delivered =>
      ingestLines rest
        { report with samples := report.samples + 1, delivered := report.delivered + delivered }
    | .error e => ingestLines rest { report with rejected := report.rejected ++ [e] }

/-- The lines of a text that are not blank. -/
def metricLines (text : String) : List String :=
  (Text.lines text.toList).filterMap fun line =>
    if Text.allBlank line then none else some (String.ofList line)

/-- Takes in the metric lines of a text. -/
def ingest (text : String) : Program interface IngestReport := ingestLines (metricLines text) {}

/-- The object type of a name. -/
def objectType (name : String) : Registry ObjectType := do
  let stored ← Registry.getObjectType name
  match stored with
  | some t => return t
  | none => throw (.unknownObjectType name)

/-- An objective. -/
def slo (filter name target : String) : Registry Slo := do
  let stored ← Registry.getSlo filter name target
  match stored with
  | some slo => return slo
  | none => throw (.unknownSlo filter name target)

/-- Deletes an objective. -/
def deleteSlo (filter name target : String) : Registry Unit := do
  let existed ← Registry.deleteSlo filter name target
  if !existed then throw (.unknownSlo filter name target)

end Engine

end StoragePolicy
