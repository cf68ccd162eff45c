import StoragePolicy.Engine.Dispatch

/-!
# The engine: dynamic policies

A dynamic rule becomes one record and one monitor for each of its targets and actions. Monitors end
with the process; they are started again from the records, which hold the text of the rule.

## Main definitions

* `Engine.spawn`: Starts the monitor of a record.
* `Engine.deployDynamic`: Stores the records of a rule and starts their monitors.
* `Engine.reload`, `Engine.respawn`: Start monitors again from stored records.
* `Engine.remove`, `Engine.shutdown`: Stop one monitor or all.
* `Engine.retire`, `Engine.afterPersistentFire`: What follows an action of a monitor.
* `Engine.turn`: What a monitor does with one sample.
-/

namespace StoragePolicy

namespace Engine

/-- Where the monitor of a policy runs. -/
def Settings.location (settings : Settings) (kind : MonitorKind) (id : Nat) : String :=
  settings.nodeName ++ "/monitors/" ++ kind.name ++ "/" ++ PolicyRecord.storeKey id

/-- Starts the monitor of a record. -/
def spawn (record : PolicyRecord) (binding : MonitorBinding) : Engine MonitorHandle :=
  match Condition.parse record.conditionText with
  | .error fault => throw (.spawnFailed record.id (.condition record.conditionText fault))
  | .ok condition => do
    let started : Option MonitorHandle ← ExceptT.lift (ask (.launch record.id condition binding))
    match started with
    | some handle => return handle
    | none => throw (.spawnFailed record.id .alreadyRunning)

/-- An action that failed on a target. -/
structure TargetFailure where
  targetId : String
  filterName : String
  error : EngineError
  deriving Repr, DecidableEq

/-- A failure as JSON. -/
def TargetFailure.toJson (f : TargetFailure) : Json :=
  .object [("target_id", .string f.targetId), ("filter_name", .string f.filterName),
    ("error", f.error.toJson)]

/-- What a deployment has brought about: the new policies, and the actions that failed. -/
structure Deployment where
  policies : List Nat := []
  failures : List TargetFailure := []
  deriving Repr, DecidableEq

/-- The record of one action of a rule on one target. -/
def newRecord (settings : Settings) (id : Nat) (text : String) (conditionText : String)
    (rule : Rule) (target : Target) (action : FilterAction) (index : Nat) : PolicyRecord :=
  { id
    ruleText := String.ofList (Text.trim text.toList)
    targetName := target.name
    targetId := target.id
    filterName := action.filterName
    verb := action.verb.keyword
    actionIndex := index
    conditionText
    objectType := rule.objectType
    objectSize := rule.objectSize
    transient := action.transient
    dispatchLocation := settings.location (.ofAction action) id
    alive := true }

/-- Stores a record. If that fails, its id is given back, as far as the store allows. -/
def storeRecord (record : PolicyRecord) : Engine Unit := do
  match ← attempt (ofRegistry (Registry.putDynamic record)) with
  | .ok _ => return ()
  | .error e => do
    discard (attempt (ofRegistry (Registry.releaseId record.id)))
    throw e

/-- Deploys the actions of a rule on its targets, given as pairs. A failure of the store ends the
    deployment; a monitor that cannot be started is reported, and its record stays. -/
def deployPairs (settings : Settings) (text conditionText : String) (rule : Rule) :
    List (Target × FilterAction × Nat) → Deployment → Engine Deployment
  | [], done => pure done
  | (target, action, index) :: rest, done => do
    let id ← ofRegistry Registry.nextId
    let record := newRecord settings id text conditionText rule target action index
    storeRecord record
    match ← attempt (spawn record ⟨target, action, rule.objectFilter⟩) with
    | .ok _ =>
      deployPairs settings text conditionText rule rest
        { done with policies := done.policies ++ [id] }
    | .error error =>
      deployPairs settings text conditionText rule rest
        { done with
          failures := done.failures ++
            [{ targetId := target.id, filterName := action.filterName, error }] }

/-- The pairs of targets and actions, target by target, each action with its place in the rule. -/
def pairs (rule : Rule) (targets : List Target) : List (Target × FilterAction × Nat) :=
  targets.flatMap fun target => rule.actions.zipIdx.map fun action => (target, action)

/-- Deploys a dynamic rule on its targets. -/
def deployDynamic (settings : Settings) (text : String) (rule : Rule) (targets : List Target) :
    Engine Deployment :=
  match rule.conditionText with
  | none => throw .ruleWithoutCondition
  | some conditionText => deployPairs settings text conditionText rule (pairs rule targets) {}

/-- The action of a rule that a record is about, if it still stands where the record says. -/
def recordedAction? (rule : Rule) (record : PolicyRecord) : Option FilterAction :=
  (rule.actions[record.actionIndex]?).filter fun action =>
    action.filterName = record.filterName && action.verb.keyword = record.verb

/-- The binding of a record, read from the text of its rule. -/
def recordedBinding (record : PolicyRecord) : Except SpawnFault MonitorBinding :=
  match Rule.parse record.ruleText with
  | .error e => .error (.rule e)
  | .ok rule =>
    match recordedAction? rule record with
    | some action => .ok ⟨record.target, action, rule.objectFilter⟩
    | none =>
      .error (.noSuchAction record.verb record.filterName record.actionIndex)

/-- Starts the monitor of a stored record again. -/
def spawnRecorded (record : PolicyRecord) : Engine Unit :=
  match recordedBinding record with
  | .error fault => throw (.spawnFailed record.id fault)
  | .ok binding => discard (spawn record binding)

/-- A stored record that did not get its monitor. -/
structure ReloadFailure where
  key : String
  policyId : Option Nat
  reason : String
  deriving Repr, DecidableEq

/-- What starting all monitors again has brought about. Hashes that are no records count as alive,
    since nobody knows whether they are. -/
structure ReloadReport where
  aliveRecords : Nat := 0
  spawned : List Nat := []
  failed : List ReloadFailure := []
  deriving Repr, DecidableEq

namespace ReloadReport

/-- Whether every alive record has its monitor. -/
def isComplete (r : ReloadReport) : Bool := r.failed.isEmpty && r.spawned.length = r.aliveRecords

/-- A report as JSON. -/
def toJson (r : ReloadReport) : Json :=
  .object [("alive_records", .natural r.aliveRecords),
    ("spawned", .array (r.spawned.map Json.natural)),
    ("failed", .array (r.failed.map fun f => .object [("key", .string f.key),
      ("policy_id", Json.ofOption Json.natural f.policyId), ("reason", .string f.reason)]))]

end ReloadReport

/-- Starts the monitors of some records, which count as alive, as far as they do not run. -/
def reloadRecords : List PolicyRecord → ReloadReport → Engine ReloadReport
  | [], report => pure report
  | record :: rest, report => do
    let report := { report with aliveRecords := report.aliveRecords + 1 }
    let live : Bool ← ExceptT.lift (ask (.isLive record.id))
    -- A monitor that runs already is listed as started, too.
    if live then reloadRecords rest { report with spawned := report.spawned ++ [record.id] }
    else
      match ← attempt (spawnRecorded record) with
      | .ok _ => reloadRecords rest { report with spawned := report.spawned ++ [record.id] }
      | .error e =>
        reloadRecords rest
          { report with
            failed := report.failed ++
              [{ key := PolicyRecord.storeKey record.id, policyId := some record.id,
                 reason := e.message }] }

/-- The failure of a hash that is no record. -/
def undecodableFailure (entry : String × RecordError) : ReloadFailure :=
  { key := entry.1
    policyId := Number.readNatural (entry.1.toList.drop PolicyRecord.keyStem.length)
    reason := entry.2.message }

/-- Starts the monitors of all alive records again. -/
def reload : Engine ReloadReport := do
  let scan ← ofRegistry Registry.scanDynamic
  reloadRecords (scan.records.filter PolicyRecord.alive)
    { aliveRecords := scan.undecodable.length
      failed := scan.undecodable.map undecodableFailure }

/-- Starts the monitor of one record again; the record is alive from then on. -/
def respawn (id : Nat) : Engine Unit := do
  let live : Bool ← ExceptT.lift (ask (.isLive id))
  if live then throw (.spawnFailed id .alreadyRunning)
  let stored ← ofRegistry (Registry.getDynamic id)
  match stored with
  | none => throw (.unknownRecord id)
  | some record => do
    spawnRecorded record
    if !record.alive then discard (ofRegistry (Registry.setAlive id true))

/-- Stops the monitor of a policy: takes it off the live ones, tells its task to stop, and detaches
    it from its tenant. Tells whether there was one. -/
def detach (id : Nat) : Program interface Bool := do
  let taken : Option MonitorHandle ← ask (.take id)
  match taken with
  | none => return false
  | some handle => do
    ask (.halt handle.serial)
    ask (.unsubscribe handle.target.tenantId id)
    return true

/-- Stops the monitor of a policy and deletes its record. Tells whether there was either. -/
def remove (id : Nat) : Engine Bool := do
  let hadMonitor ← ExceptT.lift (detach id)
  let hadRecord ← ofRegistry (Registry.deleteDynamic id)
  return hadMonitor || hadRecord

/-- Ends a transient policy after its action. A policy that is no longer live is left alone, and a
    failure of the store is passed over. -/
def retire (settings : Settings) (id : Nat) : Program interface Unit := do
  if ← detach id then
    match settings.retirement with
    | .markInactive => discard (ofRegistry (Registry.setAlive id false)).run
    | .delete => discard (ofRegistry (Registry.deleteDynamic id)).run

/-- Marks the record of a persistent policy after its action, if the settings say so. -/
def afterPersistentFire (settings : Settings) (id : Nat) : Program interface Unit := do
  if !settings.aliveAfterFire then discard (ofRegistry (Registry.setAlive id false)).run

/-- Tells monitors to stop and detaches them. -/
def haltAll : List MonitorHandle → Program interface Unit
  | [] => pure ()
  | handle :: rest => do
    ask (.halt handle.serial)
    ask (.unsubscribe handle.target.tenantId handle.policyId)
    haltAll rest

/-- Stops all monitors. Their records stay as they are. -/
def shutdown : Program interface Unit := do
  let handles : List MonitorHandle ← ask .drain
  haltAll handles

/-- What a monitor does with one sample: if it fires, it takes its action and what follows from
    that. Gives the new state, and whether the monitor goes on to the next sample. A monitor that
    was told to stop ends without looking at the sample. -/
def turn (settings : Settings) (handle : MonitorHandle) (binding : MonitorBinding) (m : Monitor)
    (sample : Sample) : Program interface (Monitor × Bool) := do
  let halted : Bool ← ask (.isHalted handle.serial)
  if halted then return (m.stop, false)
  else
    match m.observe sample.metric sample.value with
    | (false, m) => return (m, true)
    | (true, m) => do
      let outcome ← (dispatch binding.target binding.action binding.objectFilter).run
      match m.conclude outcome.isOk with
      | (.retire, m) => do
        -- A stop that has come while the action was taken leaves the rest to whoever gave it.
        let halted : Bool ← ask (.isHalted handle.serial)
        if !halted then retire settings handle.policyId
        return (m.stop, false)
      | (.goOn, m) => do
        if outcome.isOk then afterPersistentFire settings handle.policyId
        return (m, true)

end Engine

end StoragePolicy
