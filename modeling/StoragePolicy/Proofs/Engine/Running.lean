import StoragePolicy.Engine.Session
import StoragePolicy.Proofs.Engine.Compositional
import StoragePolicy.Proofs.Store.Frame
import StoragePolicy.Proofs.Monitor.Table

/-!
# Running the engine

A program of the engine is run against a session call by call. Here its parts are run: one part
after the other, a part over the store as it runs on the store alone, and calls to the storage side
and to the monitors.

Two numbers only grow: the calls made to the storage side and the monitors launched. Every id that
is taken is followed by one of the two, so that their sum bounds the counter of ids.

## Main definitions

* `Session.Open`: A session whose store refuses nothing.
* `Session.withStore`, `Session.withMonitors`: A session with one part replaced.
* `Session.Goes`: Programs that lead to sessions in a relation to those they began with.
* `Session.effort`: The calls to the storage side and the monitors launched, together.

## Theorems

* `run_ofRegistry`: A program over the store runs as it does on the store alone.
* `run_bind_ok`, `run_attempt`: Parts of a program run one after the other.
* `goes_bind`, `goes_then`: What the parts of a program keep, the program keeps.
* `effort_run`: The effort never shrinks.
-/

namespace StoragePolicy

namespace Session

/-- A session whose store refuses nothing. -/
def Open (s : Session) : Prop := s.backend.refusal = fun _ => none

/-- The content of the store. -/
def store (s : Session) : Store := s.backend.data

/-- A session with another content of the store. -/
def withStore (s : Session) (d : Store) : Session :=
  { s with backend := { s.backend with data := d } }

/-- A session with other monitors. -/
def withMonitors (s : Session) (monitors : MonitorTable) : Session := { s with monitors }

/-- A session with another state of the storage side. -/
def withStorage (s : Session) (storage : StorageSide) : Session := { s with storage }

/-- The calls made to the storage side and the monitors launched, together. -/
def effort (s : Session) : Nat := s.storage.calls.length + s.monitors.nextSerial

@[simp] theorem store_withStore (s : Session) (d : Store) : (s.withStore d).store = d := rfl

@[simp] theorem store_withMonitors (s : Session) (t : MonitorTable) :
    (s.withMonitors t).store = s.store := rfl

@[simp] theorem store_withStorage (s : Session) (storage : StorageSide) :
    (s.withStorage storage).store = s.store := rfl

@[simp] theorem monitors_withStore (s : Session) (d : Store) :
    (s.withStore d).monitors = s.monitors := rfl

@[simp] theorem monitors_withMonitors (s : Session) (t : MonitorTable) :
    (s.withMonitors t).monitors = t := rfl

@[simp] theorem monitors_withStorage (s : Session) (storage : StorageSide) :
    (s.withStorage storage).monitors = s.monitors := rfl

@[simp] theorem storage_withStore (s : Session) (d : Store) :
    (s.withStore d).storage = s.storage := rfl

theorem open_withStore (s : Session) (d : Store) (h : s.Open) : (s.withStore d).Open := h

theorem withStore_store (s : Session) : s.withStore s.store = s := rfl

/-! ### Parts of programs -/

variable {α β : Type}

theorem run_pure (s : Session) (a : α) : s.run (pure a) = (a, s) := rfl

theorem run_bind (s : Session) (p : Program Engine.interface α)
    (f : α → Program Engine.interface β) :
    s.run (p >>= f) = (s.run p).2.run (f (s.run p).1) := Program.run_bind _ _ _ _

theorem run_bindCont (s : Session) (p : Engine α) (f : α → Engine β) :
    s.run (p >>= f).run = (s.run p.run).2.run (ExceptT.bindCont f (s.run p.run).1) :=
  Program.run_bind _ _ _ _

theorem run_bind_ok (s s' : Session) (p : Engine α) (f : α → Engine β) (a : α)
    (h : s.run p.run = (.ok a, s')) : s.run (p >>= f).run = s'.run (f a).run := by
  rw [run_bindCont, h]
  rfl

theorem run_lift (s : Session) (p : Program Engine.interface α) :
    s.run (ExceptT.lift p : Engine α).run = (.ok (s.run p).1, (s.run p).2) := by
  have h : s.run (ExceptT.lift p : Engine α).run = s.run (p >>= fun a => pure (.ok a)) := rfl
  rw [h, run_bind, run_pure]

theorem run_attempt (s : Session) (p : Engine α) :
    s.run (Engine.attempt p).run = (.ok (s.run p.run).1, (s.run p.run).2) := run_lift s p.run

theorem run_discard (s : Session) (p : Engine α) :
    s.run (discard p : Engine Unit).run = ((s.run p.run).1.map fun _ => (), (s.run p.run).2) := by
  have h : s.run (discard p : Engine Unit).run = s.run (p >>= fun _ => pure ()).run := rfl
  rw [h, run_bindCont]
  cases (s.run p.run).1 <;> rfl

theorem run_discard_program (s : Session) (p : Program Engine.interface α) :
    s.run (discard p) = ((), (s.run p).2) := by
  have h : s.run (discard p) = s.run (p >>= fun _ => pure ()) := rfl
  rw [h, run_bind, run_pure]

/-- A call to the store does what the store does. -/
theorem exec_store (s : Session) (c : Store.Call) (h : s.Open) :
    exec (.store c) s = ((s.store.exec c).1, s.withStore (s.store.exec c).2) := by
  have hrefusal : s.backend.refusal c = none := congrFun h c
  rw [exec, Backend.exec_of_refusal_eq_none c s.backend hrefusal]
  rfl

/-- A call to the store is refused, or does what the store does. -/
theorem exec_store_cases (c : Store.Call) (s : Session) :
    (∃ e, exec (.store c) s = (.error e, s)) ∨
      exec (.store c) s = ((s.store.exec c).1, s.withStore (s.store.exec c).2) := by
  simp only [exec, Backend.exec]
  cases s.backend.refusal c with
  | some e => exact Or.inl ⟨e, rfl⟩
  | none => exact Or.inr rfl

/-- What holds of a store and of the one after a call holds whether or not the call is refused. -/
theorem store_exec_invariant (P : Store → Prop) (c : Store.Call) (s : Session) (h : P s.store)
    (hexec : P (s.store.exec c).2) : P (exec (.store c) s).2.store := by
  rcases exec_store_cases c s with ⟨e, heq⟩ | heq
  · rw [heq]
    exact h
  · rw [heq]
    exact hexec

theorem get?_exec_store (c : Store.Call) (s : Session) (key : String) (hc : key ∉ c.changed) :
    (exec (.store c) s).2.store.get? key = s.store.get? key :=
  store_exec_invariant (fun d => d.get? key = s.store.get? key) c s rfl
    (Store.get?_exec s.store c key hc)

/-- A program over the store runs as it does on the store alone. -/
theorem run_ofRegistry (s : Session) (p : Registry α) (h : s.Open) :
    s.run (Engine.ofRegistry p).run = ((p.on s.store).1, s.withStore (p.on s.store).2) := by
  have hrun : ∀ (q : Program Store.interface (Except EngineError α)) (s : Session), s.Open →
      s.run (q.embed fun c => Engine.ask (.store c)) =
        ((Program.run (fun c d => d.exec c) q s.store).1,
          s.withStore (Program.run (fun c d => d.exec c) q s.store).2) := by
    intro q
    induction q with
    | done a => exact fun _ _ => rfl
    | call c next ih =>
      intro s hs
      have hstep : s.run ((Program.call c next).embed fun c => Engine.ask (.store c)) =
          (exec (.store c) s).2.run ((next (exec (.store c) s).1).embed
            fun c => Engine.ask (.store c)) := rfl
      rw [hstep, exec_store s c hs, ih _ _ (open_withStore s _ hs)]
      rfl
  exact hrun p.run s h

theorem run_install (s : Session) (target : Target) (filter : FilterSpec) (entry : StaticEntry) :
    s.run (Engine.install target filter entry).run =
      (Except.mapError .ofInstaller (s.storage.receive (.install target filter entry)).1,
        s.withStorage (s.storage.receive (.install target filter entry)).2) := rfl

theorem run_uninstall (s : Session) (target : Target) (filter : FilterSpec) :
    s.run (Engine.uninstall target filter).run =
      (Except.mapError .ofInstaller (s.storage.receive (.uninstall target filter)).1,
        s.withStorage (s.storage.receive (.uninstall target filter)).2) := rfl

theorem run_isLive (s : Session) (id : Nat) :
    s.run (Engine.ask (.isLive id)) = (s.monitors.isLive id, s) := rfl

theorem run_launch (s : Session) (id : Nat) (condition : Condition) (binding : MonitorBinding) :
    s.run (Engine.ask (.launch id condition binding)) =
      ((s.monitors.launch id condition binding).1,
        s.withMonitors (s.monitors.launch id condition binding).2) := rfl

theorem run_deliver (s : Session) (sample : Sample) :
    s.run (Engine.ask (.deliver sample)) =
      ((s.monitors.deliver sample).1, s.withMonitors (s.monitors.deliver sample).2) := rfl

/-- A policy that is not live is started. -/
theorem run_spawn (s : Session) (r : PolicyRecord) (binding : MonitorBinding)
    (condition : Condition) (hlive : s.monitors.isLive r.id = false)
    (hcondition : Condition.parse r.conditionText = .ok condition) :
    s.run (Engine.spawn r binding).run =
      (.ok (s.monitors.newTask r.id condition binding).handle,
        s.withMonitors (s.monitors.started r.id condition binding)) := by
  have hlaunch := MonitorTable.launch_of_not_isLive s.monitors r.id condition binding hlive
  have hask := run_lift s (Engine.ask (.launch r.id condition binding))
  rw [run_launch, hlaunch] at hask
  rw [Engine.spawn, hcondition]
  exact run_bind_ok s _ _ _ _ hask

/-- A reload reports a policy that is live without starting it. -/
theorem run_reloadRecords_of_isLive (s : Session) (r : PolicyRecord) (rest : List PolicyRecord)
    (report : Engine.ReloadReport) (hlive : s.monitors.isLive r.id = true) :
    s.run (Engine.reloadRecords (r :: rest) report).run =
      s.run (Engine.reloadRecords rest
        { report with
          aliveRecords := report.aliveRecords + 1
          spawned := report.spawned ++ [r.id] }).run := by
  have hask := run_lift s (Engine.ask (.isLive r.id))
  rw [run_isLive, hlive] at hask
  exact run_bind_ok s _ _ _ _ hask

/-- A reload starts the monitor of a policy that is not live, and reports what that comes to. -/
theorem run_reloadRecords_of_spawn (s t : Session) (r : PolicyRecord) (rest : List PolicyRecord)
    (report : Engine.ReloadReport) (hlive : s.monitors.isLive r.id = false)
    (result : Except EngineError Unit) :
    s.run (Engine.spawnRecorded r).run = (result, t) →
      s.run (Engine.reloadRecords (r :: rest) report).run = t.run
        (Engine.reloadRecords rest (match result with
          | .ok _ =>
            { report with
              aliveRecords := report.aliveRecords + 1
              spawned := report.spawned ++ [r.id] }
          | .error e =>
            { report with
              aliveRecords := report.aliveRecords + 1
              failed := report.failed ++
                [⟨PolicyRecord.storeKey r.id, some r.id, e.message⟩] })).run := by
  intro hspawn
  have hask := run_lift s (Engine.ask (.isLive r.id))
  rw [run_isLive, hlive] at hask
  have hattempt := run_attempt s (Engine.spawnRecorded r)
  rw [hspawn] at hattempt
  refine (run_bind_ok s _ _ _ _ hask).trans ((run_bind_ok s _ _ _ _ hattempt).trans ?_)
  cases result <;> rfl

/-! ### Relations that programs keep -/

/-- A program that leads from every session to one that stands in a relation to it. -/
def Goes (R : Session → Session → Prop) (p : Program Engine.interface α) : Prop :=
  ∀ s : Session, R s (s.run p).2

section Goes

variable (R : Session → Session → Prop) (hrefl : ∀ s, R s s)
  (htrans : ∀ s t u, R s t → R t u → R s u)

include htrans in
theorem goes_bind (p : Program Engine.interface α) (f : α → Program Engine.interface β)
    (hp : Goes R p) (hf : ∀ a, Goes R (f a)) : Goes R (p >>= f) := by
  intro s
  rw [run_bind]
  exact htrans _ _ _ (hp s) (hf _ _)

include hrefl htrans in
theorem goes_then (p : Engine α) (f : α → Engine β) (hp : Goes R p.run)
    (hf : ∀ a, Goes R (f a).run) : Goes R (p >>= f).run := by
  intro s
  rw [run_bindCont]
  refine htrans _ _ _ (hp s) ?_
  cases (s.run p.run).1 with
  | ok a => exact hf a _
  | error e => exact hrefl _

include hrefl htrans in
/-- A monitor that reads a queue takes one turn after the other. -/
theorem goes_serve (settings : Engine.Settings) (handle : MonitorHandle) (binding : MonitorBinding)
    (hturn : ∀ m sample, Goes R (Engine.turn settings handle binding m sample))
    (queue : List Sample) (m : Monitor) (s : Session) :
    R s (serve settings handle binding queue m s).2 := by
  induction queue generalizing m s with
  | nil => exact hrefl s
  | cons sample rest ih =>
    have hfirst := hturn m sample s
    rw [serve]
    rcases hrun : s.run (Engine.turn settings handle binding m sample) with ⟨⟨m', goesOn⟩, t⟩
    rw [hrun] at hfirst
    cases goesOn with
    | false => exact hfirst
    | true => exact htrans _ _ _ hfirst (ih m' t)

include hrefl htrans in
theorem goes_runTasks (settings : Engine.Settings)
    (htask : ∀ s serial, R s (runTask settings s serial)) (serials : List Nat) (s : Session) :
    R s (serials.foldl (runTask settings) s) := by
  induction serials generalizing s with
  | nil => exact hrefl s
  | cons serial rest ih => exact htrans _ _ _ (htask s serial) (ih _)

theorem goes_lift (p : Program Engine.interface α) (hp : Goes R p) :
    Goes R (ExceptT.lift p : Engine α).run := by
  intro s
  rw [run_lift]
  exact hp s

include hrefl htrans in
theorem compositional_goes : Engine.Compositional fun _ p => Goes R p :=
  ⟨fun _ => hrefl, goes_bind R htrans⟩

end Goes

/-! ### The effort -/

theorem nextSerial_exec_le (c : Engine.Call) (s : Session) :
    s.monitors.nextSerial ≤ (exec c s).2.monitors.nextSerial := by
  cases c with
  | launch id condition binding =>
    simp only [exec, MonitorTable.launch]
    split
    · exact Nat.le_refl _
    · exact Nat.le_succ _
  | take id =>
    simp only [exec, MonitorTable.take]
    split <;> exact Nat.le_refl _
  | deliver sample =>
    exact Nat.le_of_eq (MonitorTable.agrees_deliver s.monitors sample).nextSerial.symm
  | _ => exact Nat.le_refl _

theorem calls_exec_le (c : Engine.Call) (s : Session) :
    s.storage.calls.length ≤ (exec c s).2.storage.calls.length := by
  cases c with
  | install target filter entry => simp [exec, StorageSide.receive]
  | uninstall target filter => simp [exec, StorageSide.receive]
  | _ => exact Nat.le_refl _

/-- The effort never shrinks. -/
theorem effort_run (p : Program Engine.interface α) (s : Session) :
    s.effort ≤ (s.run p).2.effort := by
  induction p generalizing s with
  | done a => exact Nat.le_refl _
  | call c next ih =>
    have hserial := nextSerial_exec_le c s
    have hcalls := calls_exec_le c s
    have hrest := ih (exec c s).1 (exec c s).2
    have hrun : s.run (.call c next) = (exec c s).2.run (next (exec c s).1) := rfl
    rw [hrun]
    simp only [effort] at hrest ⊢
    omega

end Session

end StoragePolicy
