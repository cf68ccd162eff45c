import StoragePolicy.Registry.Basic
import StoragePolicy.Target

/-!
# The directory of tenants

The directory knows the tenants by id and name, and which of them are enabled. It is given in
advance or kept in the store. A rule names a tenant by its id or else by its name; of several
tenants with one name the one with the least id is meant.

## Main definitions

* `Tenants`: The content of the directory at one moment.
* `Tenants.resolve`: The target a rule names.
* `Tenants.resolveAll`: The targets of a rule, each once.
* `Tenants.displayName`: The readable name of a stored target.
* `Directory`: Where the content comes from.
-/

namespace StoragePolicy

/-- The names of the tenants by id, and the ids of those that are enabled. -/
structure Tenants where
  names : Dict String String
  enabled : List String

namespace Tenants

/-- The id and the name of the tenant that a text names, as an id first. -/
def find? (t : Tenants) (text : String) : Option (String × String) :=
  match t.names.get? text with
  | some name => some (text, name)
  | none => t.names.entries.find? fun e => e.2 = text

/-- The parts of the expression of a target. A container needs a name. -/
def split (kind : TargetKind) (expr : String) : Except EngineError (String × Option String) :=
  match kind with
  | .tenant => .ok (expr, none)
  | .container =>
    match Target.splitSlash expr with
    | (tenant, some container) =>
      if container.isEmpty then .error (.notAContainer expr) else .ok (tenant, some container)
    | (_, none) => .error (.notAContainer expr)

/-- The target that a rule names. Its tenant must exist and be enabled. -/
def resolve (t : Tenants) (kind : TargetKind) (expr : String) : Except EngineError Target := do
  let (tenant, container) ← split kind expr
  match t.find? tenant with
  | none => .error (.unknownTenant tenant)
  | some (id, name) =>
    if t.enabled.contains id then
      return { tenantId := id, tenantName := name, container := container }
    else .error (.tenantNotEnabled id)

/-- The targets of a list with the targets in it that have not been `seen`, each once. -/
def distinct (seen : List String) : List Target → List Target
  | [] => []
  | target :: rest =>
    if seen.contains target.id then distinct seen rest
    else target :: distinct (target.id :: seen) rest

/-- The targets of a rule in their order. Targets with one id are kept once, and the first failure
    fails the whole. -/
def resolveAll (t : Tenants) (targets : List RuleTarget) : Except EngineError (List Target) :=
  (targets.mapM fun target => t.resolve target.kind target.expr).map (distinct [])

/-- The readable name of a stored target. An unknown tenant goes by its id, and the tenant `global`
    always by `Global`. -/
def displayName (names : Dict String String) (targetId : String) : String :=
  let (tenant, container) := Target.splitSlash targetId
  Target.withContainer (((names.insert "global" "Global").get? tenant).getD tenant) container

end Tenants

/-- Where the content of the directory comes from. -/
inductive Directory where
  /-- It is given in advance. -/
  | fixed (tenants : Tenants)
  /-- It is kept in the store, as a hash and a list. -/
  | stored

namespace Directory

/-- The key of the hash of the names of the tenants. -/
def namesKey : String := "projects"

/-- The key of the list of the enabled tenants. -/
def enabledKey : String := "projects_crystal_enabled"

/-- The names of the tenants. -/
def names : Directory → Registry (Dict String String)
  | .fixed tenants => pure tenants.names
  | .stored => Registry.ask (.getFields namesKey)

/-- The ids of the enabled tenants. -/
def enabled : Directory → Registry (List String)
  | .fixed tenants => pure tenants.enabled
  | .stored => Registry.ask (.getItems enabledKey)

/-- The content of the directory: the names are read first. -/
def read (d : Directory) : Registry Tenants := do
  let names ← d.names
  let enabled ← d.enabled
  return { names, enabled }

/-- The target that a rule names. -/
def resolve (d : Directory) (target : RuleTarget) : Registry Target := do
  let tenants ← d.read
  Registry.ofExcept (tenants.resolve target.kind target.expr)

/-- The targets of a rule, all from one content of the directory. -/
def resolveAll (d : Directory) (targets : List RuleTarget) : Registry (List Target) := do
  let tenants ← d.read
  Registry.ofExcept (tenants.resolveAll targets)

/-- The readable name of a stored target. -/
def displayName (d : Directory) (targetId : String) : Registry String := do
  return Tenants.displayName (← d.names) targetId

end Directory

end StoragePolicy
