import StoragePolicy.Registry.Dynamic
import StoragePolicy.Registry.Catalog
import StoragePolicy.Directory
import StoragePolicy.Monitor.Table

/-!
# The engine: its calls

The engine is a set of programs over the store, the storage side, which installs filters, and the
table of monitors. Every call is one step, between which the steps of others may fall.

## Main definitions

* `Engine.Call`: The calls.
* `Engine`: A program over them that may be refused.
* `Engine.Retirement`, `Engine.Settings`: What happens to records when monitors fire.
-/

namespace StoragePolicy

namespace Engine

/-- A call of the engine to its surroundings. -/
inductive Call where
  | store (c : Store.Call)
  | install (target : Target) (filter : FilterSpec) (entry : StaticEntry)
  | uninstall (target : Target) (filter : FilterSpec)
  /-- Whether a policy has a live monitor. -/
  | isLive (id : Nat)
  /-- Starts a monitor for a policy that has none, and attaches it to its tenant. -/
  | launch (id : Nat) (condition : Condition) (binding : MonitorBinding)
  /-- Takes a policy off the live ones. -/
  | take (id : Nat)
  /-- Takes all policies off the live ones. -/
  | drain
  /-- Tells a task to stop. -/
  | halt (serial : Nat)
  /-- Whether a task was told to stop. -/
  | isHalted (serial : Nat)
  /-- Detaches a policy from the samples of a tenant. -/
  | unsubscribe (tenantId : String) (id : Nat)
  /-- Queues a sample at the monitors of its tenant. -/
  | deliver (sample : Sample)

/-- The type of the reply to a call. -/
def Call.Reply : Call → Type
  | .store c => Except StoreError c.Answer
  | .install _ _ _ | .uninstall _ _ => Except InstallerError Unit
  | .isLive _ | .isHalted _ => Bool
  | .launch _ _ _ | .take _ => Option MonitorHandle
  | .drain => List MonitorHandle
  | .halt _ | .unsubscribe _ _ => Unit
  | .deliver _ => Nat

/-- The surroundings of the engine. -/
abbrev interface : Interface := ⟨Call, Call.Reply⟩

/-- What becomes of the record of a transient policy after its action. -/
inductive Retirement where
  /-- It is kept, and no longer alive. -/
  | markInactive
  | delete
  deriving Repr, DecidableEq

/-- What happens to records when monitors fire, and the name of this node. -/
structure Settings where
  nodeName : String := "crystal-node"
  retirement : Retirement := .markInactive
  /-- Whether the record of a persistent policy stays alive after its action. -/
  aliveAfterFire : Bool := true
  deriving Repr, DecidableEq

end Engine

/-- A program of the engine that ends in a value or in an error. -/
abbrev Engine (α : Type) := ExceptT EngineError (Program Engine.interface) α

namespace Engine

/-- Makes a call that always gets its answer. -/
def ask (c : Call) : Program interface c.Reply := .call c .done

/-- A program over the store as one of the engine. -/
def ofRegistry {α : Type} (p : Registry α) : Engine α :=
  ExceptT.mk (Program.embed (fun c => ask (.store c)) p.run)

/-- Makes a call to the storage side. -/
def install (target : Target) (filter : FilterSpec) (entry : StaticEntry) : Engine Unit :=
  ExceptT.mk (.call (.install target filter entry) fun reply =>
    .done (Except.mapError EngineError.ofInstaller reply))

/-- Makes a call to the storage side. -/
def uninstall (target : Target) (filter : FilterSpec) : Engine Unit :=
  ExceptT.mk (.call (.uninstall target filter) fun reply =>
    .done (Except.mapError EngineError.ofInstaller reply))

/-- Runs a program whose error is not the end. -/
def attempt {α : Type} (p : Engine α) : Engine (Except EngineError α) :=
  ExceptT.lift p.run

end Engine

end StoragePolicy
