import StoragePolicy.Monitor.Basic
import StoragePolicy.Fanout
import StoragePolicy.Target

/-!
# The table of monitors

Every monitor runs as a task of its own with a queue of samples. A task is known by a serial number,
which is never used again, and as long as it counts as live also by the id of its policy. The three
tables (tasks, live ids, observers) change in separate steps, because a task may go on for a while
after its policy has been removed.

## Main definitions

* `MonitorBinding`: What a monitor does when it fires.
* `MonitorHandle`: What others know of a running monitor.
* `MonitorTask`: The task of a monitor.
* `MonitorTable`: All of them.
* `MonitorTable.launch`, `MonitorTable.take`, `MonitorTable.halt`: The steps on the tables.
* `MonitorTable.deliver`: Queues a sample at the monitors of its tenant.
-/

namespace StoragePolicy

/-- What a monitor does when it fires: an action on a target. -/
structure MonitorBinding where
  target : Target
  action : FilterAction
  objectFilter : Option ObjectFilter
  deriving Repr, DecidableEq

/-- What others know of a running monitor. -/
structure MonitorHandle where
  serial : Nat
  policyId : Nat
  kind : MonitorKind
  target : Target
  deriving Repr, DecidableEq

/-- The task of a monitor: its state, the samples it has not read yet, whether it was told to stop,
    and whether it has ended. -/
structure MonitorTask where
  handle : MonitorHandle
  binding : MonitorBinding
  monitor : Monitor
  queue : List Sample := []
  halted : Bool := false
  ended : Bool := false

/-- The tasks by serial number, the serial numbers of the live monitors by policy id, the observers
    of each tenant, and the tasks with samples in the order in which they got their first one. -/
structure MonitorTable where
  tasks : Dict Nat MonitorTask := Dict.empty
  live : Dict Nat Nat := Dict.empty
  fanout : Fanout Nat := {}
  ready : List Nat := []
  nextSerial : Nat := 0

namespace MonitorTable

/-- The ids of the live monitors, in ascending order. -/
def liveIds (t : MonitorTable) : List Nat := t.live.keys

/-- Whether a policy has a live monitor. -/
def isLive (t : MonitorTable) (id : Nat) : Bool := t.live.contains id

/-- Whether a task was told to stop. -/
def isHalted (t : MonitorTable) (serial : Nat) : Bool :=
  ((t.tasks.get? serial).map MonitorTask.halted).getD true

/-- Starts a monitor for a policy that has none, and attaches it to the tenant of its target. -/
def launch (t : MonitorTable) (id : Nat) (condition : Condition) (binding : MonitorBinding) :
    Option MonitorHandle × MonitorTable :=
  if t.isLive id then (none, t)
  else
    let handle : MonitorHandle :=
      { serial := t.nextSerial, policyId := id, kind := .ofAction binding.action,
        target := binding.target }
    let task : MonitorTask := { handle, binding, monitor := { kind := handle.kind, condition } }
    (some handle,
      { t with
        tasks := t.tasks.insert handle.serial task
        live := t.live.insert id handle.serial
        fanout := t.fanout.attach binding.target.tenantId id handle.serial
        nextSerial := t.nextSerial + 1 })

/-- The handle of a task. -/
def handle? (t : MonitorTable) (serial : Nat) : Option MonitorHandle :=
  (t.tasks.get? serial).map MonitorTask.handle

/-- Takes a policy off the live ones. -/
def take (t : MonitorTable) (id : Nat) : Option MonitorHandle × MonitorTable :=
  match t.live.get? id with
  | some serial => (t.handle? serial, { t with live := t.live.erase id })
  | none => (none, t)

/-- Takes all policies off the live ones. -/
def drain (t : MonitorTable) : List MonitorHandle × MonitorTable :=
  (t.live.values.filterMap t.handle?, { t with live := Dict.empty })

/-- Tells a task to stop. It reads no further sample. -/
def halt (t : MonitorTable) (serial : Nat) : MonitorTable :=
  { t with tasks := t.tasks.adjust serial fun task => { task with halted := true } }

/-- Detaches a policy from the samples of a tenant. -/
def unsubscribe (t : MonitorTable) (tenantId : String) (id : Nat) : MonitorTable :=
  { t with fanout := (t.fanout.detach tenantId id).2 }

/-- Queues a sample at one task. A task that was told to stop takes it without a use for it; one
    that has ended by itself refuses it. -/
def enqueue (sample : Sample) (serial : Nat) (t : MonitorTable) : Fanout.Receipt × MonitorTable :=
  match t.tasks.get? serial with
  | none => (.refused, t)
  | some task =>
    if task.halted then (.accepted, t)
    else if task.ended then (.refused, t)
    else
      (.accepted,
        { t with
          tasks := t.tasks.insert serial { task with queue := task.queue ++ [sample] }
          ready := if t.ready.contains serial then t.ready else t.ready ++ [serial] })

/-- Queues a sample at the monitors of its tenant; gives how many took it. -/
def deliver (t : MonitorTable) (sample : Sample) : Nat × MonitorTable :=
  t.fanout.deliver sample.tenantId (enqueue sample) t

end MonitorTable

end StoragePolicy
