import StoragePolicy.Policy.Record
import StoragePolicy.Sample.Parser
import StoragePolicy.Rule.Parser
import StoragePolicy.Store.Basic

/-!
# Errors of the engine

An error is the cause for which an operation was refused. Each has a stable code and a wording for
people. The wording may change with the cause; clients go by the code.

## Main definitions

* `InstallerError`: Why the storage side refused to install or remove a filter.
* `SpawnFault`: Why a monitor could not be started.
* `EngineError`: Why the engine refused an operation.
* `EngineError.code`, `EngineError.message`: Its two descriptions.
-/

namespace StoragePolicy

/-- Why the storage side refused to install or remove a filter. -/
inductive InstallerError where
  /-- The storage side does not know the filter. -/
  | filterNotFound (name : String)
  | invalidUrl (url reason : String)
  /-- The request did not get through. -/
  | http (reason : String)
  /-- The answer was neither success nor that the filter is unknown. -/
  | unexpectedStatus (status : String)
  deriving Repr, DecidableEq

/-- The wording of an error. -/
def InstallerError.message : InstallerError → String
  | .filterNotFound name => "filter `" ++ name ++ "` is unknown to the storage backend"
  | .invalidUrl url reason => "invalid filter service url " ++ url ++ ": " ++ reason
  | .http reason => "filter request failed: " ++ reason
  | .unexpectedStatus status => "filter service returned unexpected status " ++ status

/-- Why a monitor could not be started. -/
inductive SpawnFault where
  | condition (text : String) (fault : Condition.Fault)
  | rule (error : Rule.ParseError)
  | alreadyRunning
  /-- The rule of the record has another action at the place the record names. -/
  | noSuchAction (verb filterName : String) (index : Nat)
  deriving Repr, DecidableEq

/-- The wording of a fault. -/
def SpawnFault.message : SpawnFault → String
  | .condition text fault => Rule.conditionMessage text fault
  | .rule error => error.message
  | .alreadyRunning => "monitor already running"
  | .noSuchAction verb filterName index =>
    "rule has no " ++ verb ++ " " ++ filterName ++ " at position " ++ Number.writeNatural index

/-- Why the engine refused an operation. -/
inductive EngineError where
  | unknownTenant (tenant : String)
  | tenantNotEnabled (tenantId : String)
  | unknownFilter (name : String)
  | malformedRule (error : Rule.ParseError)
  /-- A container target whose tenant or container part is missing. -/
  | notAContainer (expr : String)
  | ruleWithoutCondition
  | malformedSample (error : Sample.ParseError)
  | store (error : StoreError)
  | undecodableRecord (error : RecordError)
  /-- The storage side refused, for another reason than an unknown filter. -/
  | remote (error : InstallerError)
  | unknownEntry (targetId : String) (id : Nat)
  | unknownRecord (id : Nat)
  | spawnFailed (id : Nat) (fault : SpawnFault)
  | unknownObjectType (name : String)
  | unknownExtension (extension name : String)
  | unknownSlo (filter name target : String)
  | objectTypeExists (name : String)
  | objectTypeWithoutName
  | noExtensions
  /-- An entry is no longer one after a patch. -/
  | notAnEntry
  | notAnEntryKey (text : String)
  | notASloPath (text : String)
  deriving Repr, DecidableEq

namespace EngineError

/-- The error for a refusal of the storage side. -/
def ofInstaller : InstallerError → EngineError
  | .filterNotFound name => .unknownFilter name
  | other => .remote other

/-- The stable code of an error. -/
def code : EngineError → String
  | .unknownTenant _ => "project_not_found"
  | .tenantNotEnabled _ => "project_not_crystal_enabled"
  | .unknownFilter _ => "filter_not_found"
  | .malformedRule _ | .notAContainer _ | .ruleWithoutCondition => "malformed_rule"
  | .malformedSample _ => "malformed_sample"
  | .store _ | .undecodableRecord _ => "store_unavailable"
  | .remote _ => "remote_action_failed"
  | .unknownEntry _ _ | .unknownRecord _ => "policy_not_found"
  | .spawnFailed _ _ => "spawn_failed"
  | .unknownObjectType _ | .unknownExtension _ _ | .unknownSlo _ _ _ => "not_found"
  | .objectTypeExists _ => "already_exists"
  | .objectTypeWithoutName | .noExtensions | .notAnEntry | .notAnEntryKey _ | .notASloPath _ =>
    "invalid_request"

/-- The key of a static policy: its target and its id. -/
def entryKey (targetId : String) (id : Nat) : String :=
  targetId ++ ":" ++ Number.writeNatural id

/-- The wording of an error. -/
def message : EngineError → String
  | .unknownTenant tenant => "project `" ++ tenant ++ "` does not exist"
  | .tenantNotEnabled tenantId => "project `" ++ tenantId ++ "` is not Crystal enabled"
  | .unknownFilter name => "filter `" ++ name ++ "` does not exist"
  | .malformedRule error => "malformed rule: " ++ error.message
  | .notAContainer expr => "malformed rule: " ++ Rule.containerMessage expr
  | .ruleWithoutCondition => "malformed rule: dynamic rule without condition"
  | .malformedSample error => "malformed metric sample: " ++ error.message
  | .store error => "policy store unavailable: " ++ error.message
  | .undecodableRecord error => "policy store unavailable: " ++ error.message
  | .remote error => "remote filter action failed: " ++ error.message
  | .unknownEntry targetId id => "policy " ++ entryKey targetId id ++ " not found"
  | .unknownRecord id => "policy " ++ Number.writeNatural id ++ " not found"
  | .spawnFailed id fault =>
    "failed to spawn monitor for policy " ++ Number.writeNatural id ++ ": " ++ fault.message
  | .unknownObjectType name => "object type " ++ name ++ " not found"
  | .unknownExtension extension name =>
    "extension " ++ extension ++ " in object type " ++ name ++ " not found"
  | .unknownSlo filter name target =>
    "SLO " ++ filter ++ ":" ++ name ++ ":" ++ target ++ " not found"
  | .objectTypeExists name => "object type " ++ name ++ " already exists"
  | .objectTypeWithoutName => "invalid request: object type name is required"
  | .noExtensions => "invalid request: types_list must not be empty"
  | .notAnEntry => "invalid request: the patched entry is not a static policy"
  | .notAnEntryKey text => "invalid request: `" ++ text ++ "` is not a <target>:<policy id> pair"
  | .notASloPath text => "invalid request: `" ++ text ++ "` is not a <filter>/<slo>/<target> path"

/-- An error as JSON. -/
def toJson (e : EngineError) : Json :=
  .object [("code", .string e.code), ("message", .string e.message)]

/-- Whether the store is to blame. -/
def isStoreFailure : EngineError → Bool
  | .store _ | .undecodableRecord _ => true
  | _ => false

/-- The store is to blame exactly when the code says so. -/
theorem isStoreFailure_iff (e : EngineError) :
    e.isStoreFailure = true ↔ e.code = "store_unavailable" := by
  cases e <;> simp [isStoreFailure, code]

end EngineError

end StoragePolicy
