import StoragePolicy.Engine.Deploy
import StoragePolicy.Engine.Policies

/-!
# Sessions

A session is a run of the engine in which every operation runs to its end and then all monitors run
until none of them has a sample left. They run one at a time, in the order in which they got their
first sample, and each reads its whole queue.

## Main definitions

* `StorageSide`: The storage side, with all calls made to it.
* `Session`: The surroundings of the engine.
* `Session.exec`, `Session.run`: What a call and a program do.
* `Session.settle`: Runs the monitors.
-/

namespace StoragePolicy

/-- A call to the storage side. -/
inductive InstallerCall where
  | install (target : Target) (filter : FilterSpec) (entry : StaticEntry)
  | uninstall (target : Target) (filter : FilterSpec)

namespace InstallerCall

/-- A call as JSON. -/
def toJson : InstallerCall → Json
  | .install target filter entry =>
    .object [("call", .string "install"), ("target", .string target.text),
      ("filter", filter.toJson), ("policy", entry.toJson)]
  | .uninstall target filter =>
    .object [("call", .string "uninstall"), ("target", .string target.text),
      ("filter", filter.toJson)]

end InstallerCall

/-- The storage side: what it answers to a call after those made before, and the calls in order. -/
structure StorageSide where
  answer : List InstallerCall → InstallerCall → Except InstallerError Unit := fun _ _ => .ok ()
  calls : List InstallerCall := []

/-- Makes a call to the storage side. A refused call counts as made. -/
def StorageSide.receive (s : StorageSide) (c : InstallerCall) :
    Except InstallerError Unit × StorageSide :=
  (s.answer s.calls c, { s with calls := s.calls ++ [c] })

/-- The surroundings of the engine. -/
structure Session where
  backend : Backend := {}
  storage : StorageSide := {}
  monitors : MonitorTable := {}

namespace Session

/-- What a call replies, and what it does. -/
def exec : (c : Engine.Call) → Session → c.Reply × Session
  | .store c, s =>
    let (reply, backend) := s.backend.exec c
    (reply, { s with backend })
  | .install target filter entry, s =>
    let (reply, storage) := s.storage.receive (.install target filter entry)
    (reply, { s with storage })
  | .uninstall target filter, s =>
    let (reply, storage) := s.storage.receive (.uninstall target filter)
    (reply, { s with storage })
  | .isLive id, s => (s.monitors.isLive id, s)
  | .launch id condition binding, s =>
    let (reply, monitors) := s.monitors.launch id condition binding
    (reply, { s with monitors })
  | .take id, s =>
    let (reply, monitors) := s.monitors.take id
    (reply, { s with monitors })
  | .drain, s =>
    let (reply, monitors) := s.monitors.drain
    (reply, { s with monitors })
  | .halt serial, s => ((), { s with monitors := s.monitors.halt serial })
  | .isHalted serial, s => (s.monitors.isHalted serial, s)
  | .unsubscribe tenantId id, s =>
    ((), { s with monitors := s.monitors.unsubscribe tenantId id })
  | .deliver sample, s =>
    let (reply, monitors) := s.monitors.deliver sample
    (reply, { s with monitors })

/-- What a program ends in, and what it does. -/
def run {α : Type} (s : Session) (p : Program Engine.interface α) : α × Session := p.run exec s

/-- Lets a monitor read samples until none is left or it ends. Gives its last state, and whether it
    still goes on. -/
def serve (settings : Engine.Settings) (handle : MonitorHandle) (binding : MonitorBinding) :
    List Sample → Monitor → Session → (Monitor × Bool) × Session
  | [], m, s => ((m, true), s)
  | sample :: rest, m, s =>
    match s.run (Engine.turn settings handle binding m sample) with
    | ((m, true), s) => serve settings handle binding rest m s
    | ((m, false), s) => ((m, false), s)

/-- Puts a task into a state: what its monitor has become, and whether it has ended. -/
def putTask (s : Session) (serial : Nat) (m : Monitor) (goesOn : Bool) : Session :=
  { s with monitors := { s.monitors with
      tasks := s.monitors.tasks.adjust serial fun task =>
        { task with monitor := m, queue := [], ended := !goesOn } } }

/-- Lets one task read its whole queue. -/
def runTask (settings : Engine.Settings) (s : Session) (serial : Nat) : Session :=
  match s.monitors.tasks.get? serial with
  | none => s
  | some task =>
    if task.ended then s
    else
      let ((m, goesOn), s) := serve settings task.handle task.binding task.queue task.monitor s
      s.putTask serial m goesOn

/-- Runs all monitors that have samples, in the order in which they got their first one. -/
def settle (settings : Engine.Settings) (s : Session) : Session :=
  let ready := s.monitors.ready
  let s := { s with monitors := { s.monitors with ready := [] } }
  ready.foldl (runTask settings) s

end Session

end StoragePolicy
