import StoragePolicy.Engine.Deploy
import StoragePolicy.Engine.Policies
import StoragePolicy.Http.Basic

/-!
# The HTTP interface: its operations

Every request that is understood is one operation of the engine. The answer tells by its status how
the operation went, and holds its result or its error as JSON.

## Main definitions

* `Api.Operation`: The operations.
* `Api.statusOf`: The status of an error.
* `Api.perform`: Carries out an operation and makes the response.
-/

namespace StoragePolicy

namespace Api

/-- An operation of the engine that can be asked for by a request. -/
inductive Operation where
  | health
  | deploy (rules : String)
  | listStatic (targetId : Option String)
  | readEntry (targetId : String) (id : Nat)
  | updateEntry (targetId : String) (id : Nat) (patch : List (String × Json))
  | deleteEntry (targetId : String) (id : Nat)
  | listDynamic
  | readRecord (id : Nat)
  | removePolicy (id : Nat)
  | respawn (id : Nat)
  | ingest (metrics : String)
  | listObjectTypes
  | createObjectType (t : ObjectType)
  | readObjectType (name : String)
  | replaceObjectType (t : ObjectType)
  | deleteObjectType (name : String)
  | removeExtension (name extension : String)
  | listSlos
  | putSlo (slo : Slo)
  | readSlo (filter name target : String)
  | deleteSlo (filter name target : String)

/-- The status of an error: not found, a bad request, a conflict, or a failure of the engine. -/
def statusOf (e : EngineError) : Nat :=
  match e with
  | .unknownTenant _ | .tenantNotEnabled _ | .unknownFilter _ | .unknownEntry _ _
  | .unknownRecord _ | .unknownObjectType _ | .unknownExtension _ _ | .unknownSlo _ _ _ => 404
  | .malformedRule _ | .notAContainer _ | .ruleWithoutCondition | .malformedSample _
  | .objectTypeWithoutName | .noExtensions | .notAnEntry | .notAnEntryKey _ | .notASloPath _ => 400
  | .objectTypeExists _ => 409
  | .store _ | .undecodableRecord _ | .remote _ | .spawnFailed _ _ => 500

/-- The response to an operation that was refused. -/
def errorResponse (e : EngineError) : Http.Response := .json (statusOf e) e.toJson

/-- The response of a program of the engine that ends in a result. -/
def respond {α : Type} (success : α → Http.Response) (p : Engine α) :
    Program Engine.interface Http.Response := do
  match ← p.run with
  | .ok a => return success a
  | .error e => return errorResponse e

/-- The response of a program that ends in something to show. -/
def showing {α : Type} (encode : α → Json) (p : Registry α) :
    Program Engine.interface Http.Response :=
  respond (fun a => .json 200 (encode a)) (Engine.ofRegistry p)

/-- The response of a program that ends in nothing to show. -/
def acknowledging {α : Type} (status : Nat) (p : Registry α) :
    Program Engine.interface Http.Response :=
  respond (fun _ => { status }) (Engine.ofRegistry p)

/-- The status of a deployment. A line that was refused as a whole decides it; failures on single
    targets alone make it mixed. -/
def deployStatus (report : Engine.DeployReport) : Nat :=
  if report.lines.isEmpty then 400
  else if report.isSuccess then 201
  else
    match report.firstError with
    | some e => statusOf e
    | none => 207

/-- The status of taking in metrics: a bad request if there was no sample but something else. -/
def ingestStatus (report : Engine.IngestReport) : Nat :=
  if report.samples = 0 && !report.rejected.isEmpty then 400 else 202

/-- A list as JSON. -/
def listJson {α : Type} (encode : α → Json) (items : List α) : Json := .array (items.map encode)

/-- Carries out an operation and makes the response. -/
def perform (directory : Directory) (settings : Engine.Settings) :
    Operation → Program Engine.interface Http.Response
  | .health => pure (.json 200 (.object [("status", .string "ok")]))
  | .deploy rules => do
    let report ← Engine.deploy directory settings rules
    return .json (deployStatus report) report.toJson
  | .listStatic targetId =>
    showing (listJson StaticView.toJson) (Engine.listStatic directory targetId)
  | .readEntry targetId id => showing StaticView.toJson (Engine.entry directory targetId id)
  | .updateEntry targetId id patch =>
    showing StaticView.toJson (Engine.updateEntry directory targetId id patch)
  | .deleteEntry targetId id => acknowledging 204 (Engine.deleteEntry targetId id)
  | .listDynamic =>
    respond (fun views => .json 200 (listJson RecordView.toJson views)) Engine.listDynamic
  | .readRecord id => respond (fun view => .json 200 view.toJson) (Engine.record id)
  | .removePolicy id => respond (fun _ => { status := 204 }) (Engine.remove id)
  | .respawn id => respond (fun _ => { status := 202 }) (Engine.respawn id)
  | .ingest metrics => do
    let report ← Engine.ingest metrics
    return .json (ingestStatus report) report.toJson
  | .listObjectTypes => showing (listJson ObjectType.toJson) Registry.listObjectTypes
  | .createObjectType t => acknowledging 201 (Registry.createObjectType t)
  | .readObjectType name => showing ObjectType.toJson (Engine.objectType name)
  | .replaceObjectType t => acknowledging 201 (Registry.replaceObjectType t)
  | .deleteObjectType name => acknowledging 204 (Registry.deleteObjectType name)
  | .removeExtension name extension =>
    acknowledging 204 (Registry.removeExtension name extension)
  | .listSlos => showing (listJson Slo.toJson) Registry.listSlos
  | .putSlo slo => acknowledging 201 (Registry.putSlo slo)
  | .readSlo filter name target => showing Slo.toJson (Engine.slo filter name target)
  | .deleteSlo filter name target => acknowledging 204 (Engine.deleteSlo filter name target)

end Api

end StoragePolicy
