import StoragePolicy.Proofs.Engine.Operations
import StoragePolicy.Proofs.Monitor.Mailbox

/-!
# Turns of monitors

After every operation the monitors run, one at a time, and each reads what is queued at it. What is
done on behalf of one policy is told by the turns of its monitor: which samples it reads, and which
calls to the storage side it makes at each of them. The turns are read off the run itself. All calls
that are made while monitors run belong to one of them.

The tasks run one after the other, so a task is affected by others in between. It is not: other
tasks act for other policies, and nothing is queued while monitors run.

## Main definitions

* `Session.Turn`: What a monitor does with one sample.
* `Session.serveTurns`, `Session.taskTurns`, `Session.tasksTurns`, `Session.settleTurns`: The turns
  of one monitor, of one task, of some, and of all that have samples.
* `Session.turns`: The turns in which operations result.
* `Session.Operation.samples`: The samples that an operation brings.

## Theorems

* `calls_settle`: Every call that is made while monitors run belongs to a turn.
* `task_of_path`: Deeds for other policies do not concern a task.
* `ready_settle`: When monitors have run, none of them has anything to read.
* `task_runTask`, `task_runTasks`: Other tasks do not concern a task.
* `run_ingest`: What comes of a text is that its samples are queued.
-/

namespace StoragePolicy

open Registry

namespace Session

/-- A turn of a monitor: the task that reads, the sample, and the calls to the storage side that it
    makes thereupon. -/
structure Turn where
  serial : Nat
  sample : Sample
  calls : List InstallerCall

section Turns

variable (settings : Engine.Settings)

/-- The turns in which a monitor reads samples. -/
def serveTurns (handle : MonitorHandle) (binding : MonitorBinding) :
    List Sample → Monitor → Session → List Turn
  | [], _, _ => []
  | sample :: rest, m, s =>
    let outcome := s.run (Engine.turn settings handle binding m sample)
    { serial := handle.serial
      sample
      calls := outcome.2.storage.calls.drop s.storage.calls.length } ::
        if outcome.1.2 then serveTurns handle binding rest outcome.1.1 outcome.2 else []

/-- The turns in which one task reads its queue. -/
def taskTurns (s : Session) (serial : Nat) : List Turn :=
  match s.monitors.tasks.get? serial with
  | none => []
  | some task =>
    if task.ended then []
    else serveTurns settings task.handle task.binding task.queue task.monitor s

/-- The turns of some tasks that run one after the other. -/
def tasksTurns : List Nat → Session → List Turn
  | [], _ => []
  | serial :: rest, s => s.taskTurns settings serial ++ tasksTurns rest (s.runTask settings serial)

/-- The turns of all monitors that have samples. -/
def settleTurns (s : Session) : List Turn := tasksTurns settings s.monitors.ready s.unready

variable (directory : Directory)

/-- The turns in which operations result. -/
def turns : List Operation → Session → List Turn
  | [], _ => []
  | operation :: rest, s =>
    (s.run (operation.program directory settings)).2.settleTurns settings ++
      turns rest (s.perform directory settings operation)

end Turns

/-- The samples that an operation brings. -/
def Operation.samples : Operation → List Sample
  | .ingest text => (Engine.metricLines text).filterMap fun line => (Sample.parse line).toOption
  | _ => []

/-! ### The calls of a run -/

/-- The storage side answers as before, and calls may have been made to it. -/
structure Called (s t : Session) : Prop where
  answer : t.storage.answer = s.storage.answer
  calls : s.storage.calls <+: t.storage.calls

theorem called_refl (s : Session) : s.Called s := ⟨rfl, List.prefix_refl _⟩

theorem called_trans (s t u : Session) (h : s.Called t) (h' : t.Called u) : s.Called u :=
  ⟨h'.answer.trans h.answer, h.calls.trans h'.calls⟩

theorem called_exec (c : Engine.Call) (s : Session) : s.Called (exec c s).2 := by
  cases c with
  | install target filter entry => exact ⟨rfl, List.prefix_append _ _⟩
  | uninstall target filter => exact ⟨rfl, List.prefix_append _ _⟩
  | _ => exact ⟨rfl, List.prefix_refl _⟩

theorem called_run {α : Type} (p : Program Engine.interface α) (s : Session) :
    s.Called (s.run p).2 := by
  induction p generalizing s with
  | done a => exact called_refl s
  | call c next ih =>
    exact called_trans _ _ _ (called_exec c s) (ih (exec c s).1 (exec c s).2)

section Calls

variable (settings : Engine.Settings)

/-- What a monitor leaves behind when it has read its samples, from the first of them on. -/
theorem serve_cons (handle : MonitorHandle) (binding : MonitorBinding) (sample : Sample)
    (rest : List Sample) (m : Monitor) (s : Session) :
    serve settings handle binding (sample :: rest) m s =
      if (s.run (Engine.turn settings handle binding m sample)).1.2 then
        serve settings handle binding rest
          (s.run (Engine.turn settings handle binding m sample)).1.1
          (s.run (Engine.turn settings handle binding m sample)).2
      else s.run (Engine.turn settings handle binding m sample) := by
  rw [serve]
  rcases s.run (Engine.turn settings handle binding m sample) with ⟨⟨m', goesOn⟩, t⟩
  cases goesOn <;> rfl

/-- The calls that a monitor makes belong to its turns. -/
theorem called_serve (handle : MonitorHandle) (binding : MonitorBinding) (queue : List Sample)
    (m : Monitor) (s : Session) :
    (serve settings handle binding queue m s).2.storage.answer = s.storage.answer ∧
      (serve settings handle binding queue m s).2.storage.calls = s.storage.calls ++
        (serveTurns settings handle binding queue m s).flatMap Turn.calls := by
  induction queue generalizing m s with
  | nil => exact ⟨rfl, (List.append_nil _).symm⟩
  | cons sample rest ih =>
    have hturn := called_run (Engine.turn settings handle binding m sample) s
    rw [serve_cons, serveTurns]
    generalize s.run (Engine.turn settings handle binding m sample) = outcome at *
    rcases outcome with ⟨⟨m', goesOn⟩, t⟩
    rcases hturn with ⟨hanswer, more, hcalls⟩
    have hdrop : t.storage.calls.drop s.storage.calls.length = more := by
      rw [← hcalls, List.drop_left]
    dsimp only
    rw [List.flatMap_cons, hdrop, ← List.append_assoc, hcalls]
    cases goesOn with
    | false => exact ⟨hanswer, (List.append_nil _).symm⟩
    | true =>
      rcases ih m' t with ⟨hanswer', hcalls'⟩
      exact ⟨hanswer'.trans hanswer, hcalls'⟩

theorem called_runTask (s : Session) (serial : Nat) :
    (s.runTask settings serial).storage.answer = s.storage.answer ∧
      (s.runTask settings serial).storage.calls = s.storage.calls ++
        (s.taskTurns settings serial).flatMap Turn.calls := by
  rw [runTask, taskTurns]
  cases s.monitors.tasks.get? serial with
  | none => exact ⟨rfl, (List.append_nil _).symm⟩
  | some task =>
    dsimp only
    split
    · exact ⟨rfl, (List.append_nil _).symm⟩
    · exact called_serve settings task.handle task.binding task.queue task.monitor s

theorem called_runTasks (serials : List Nat) (s : Session) :
    (serials.foldl (runTask settings) s).storage.answer = s.storage.answer ∧
      (serials.foldl (runTask settings) s).storage.calls = s.storage.calls ++
        (tasksTurns settings serials s).flatMap Turn.calls := by
  induction serials generalizing s with
  | nil => exact ⟨rfl, (List.append_nil _).symm⟩
  | cons serial rest ih =>
    rcases called_runTask settings s serial with ⟨hanswer, hcalls⟩
    rcases ih (s.runTask settings serial) with ⟨hanswer', hcalls'⟩
    refine ⟨hanswer'.trans hanswer, ?_⟩
    rw [List.foldl_cons, hcalls', hcalls, tasksTurns, List.flatMap_append, List.append_assoc]

/-- Every call that is made to the storage side while monitors run belongs to a turn. -/
theorem calls_settle (s : Session) : (s.settle settings).storage.calls =
    s.storage.calls ++ (s.settleTurns settings).flatMap Turn.calls :=
  (called_runTasks settings s.monitors.ready s.unready).2

theorem answer_settle (s : Session) :
    (s.settle settings).storage.answer = s.storage.answer :=
  (called_runTasks settings s.monitors.ready s.unready).1

theorem tasksTurns_append (first second : List Nat) (s : Session) :
    tasksTurns settings (first ++ second) s = tasksTurns settings first s ++
      tasksTurns settings second (first.foldl (runTask settings) s) := by
  induction first generalizing s with
  | nil => rfl
  | cons serial rest ih =>
    rw [List.cons_append, tasksTurns, tasksTurns, ih, List.append_assoc]
    rfl

end Calls

/-! ### Other tasks -/

/-- Deeds that start and stop monitors do not concern which tasks have samples. -/
theorem ready_of_path (kind : Deed → Prop) (hhear : ∀ sample, ¬ kind (.hear sample))
    (hread : ∀ other, ¬ kind (.read other)) (s t : Session) (h : Path kind s t) (hs : s.Sound) :
    t.monitors.ready = s.monitors.ready := by
  refine path_invariant (fun u => u.monitors.ready = s.monitors.ready) ?_ s t h hs rfl
  intro deed u v hkind hu hv hdoes hready
  have heffect := hdoes.effect
  cases deed with
  | pass => rw [heffect.2, hready]
  | rest id => rw [heffect.2, hready]
  | hear sample => exact absurd hkind (hhear sample)
  | read other => exact absurd hkind (hread other)
  | create r =>
    rcases heffect with ⟨-, -, -, -, binding, condition, -, hmonitors⟩
    rw [hmonitors]
    exact hready
  | revive id =>
    rcases heffect with ⟨-, r, -, -, binding, condition, -, hmonitors⟩
    rw [hmonitors]
    exact hready
  | retire id => rw [heffect.2, MonitorTable.ready_without, hready]
  | remove id => rw [heffect.2, MonitorTable.ready_without, hready]

/-- What deeds for other policies keep of a task: it is in its place, and it is not live under an id
    whose monitor may be stopped. -/
structure Kept (kind : Deed → Prop) (serial : Nat) (task : MonitorTask) (s : Session) : Prop where
  stored : s.monitors.tasks.get? serial = some task
  spared : ∀ id, kind (.retire id) ∨ kind (.remove id) → s.monitors.live.get? id ≠ some serial

section Kept

variable (kind : Deed → Prop) (serial : Nat) (task : MonitorTask)

/-- Starting a monitor does not concern a task that is there. -/
theorem kept_started (s t : Session) (hs : s.Sound) (h : s.Kept kind serial task) (id : Nat)
    (condition : Condition) (binding : MonitorBinding)
    (hmonitors : t.monitors = s.monitors.started id condition binding) :
    t.Kept kind serial task := by
  have hcore := MonitorTable.core?_of_tasks _ serial task h.stored
  have hold := Nat.ne_of_lt (hs.tables.launched serial _ hcore).1
  refine ⟨?_, fun own hown => ?_⟩
  · rw [hmonitors, MonitorTable.tasks_started _ _ _ _ _ hold, h.stored]
  · rw [hmonitors, MonitorTable.live_started]
    split
    · exact fun heq => hold (Option.some.inj heq).symm
    · exact h.spared own hown

/-- Stopping the monitor of another policy does not concern a task. -/
theorem kept_without (s t : Session) (hs : s.Sound) (h : s.Kept kind serial task) (id : Nat)
    (hid : kind (.retire id) ∨ kind (.remove id)) (hmonitors : t.monitors = s.monitors.without id) :
    t.Kept kind serial task := by
  refine ⟨?_, fun own hown => ?_⟩
  · rw [hmonitors, MonitorTable.tasks_without _ _ hs.tables id (h.spared id hid), h.stored]
  · rw [hmonitors, MonitorTable.live_without]
    split
    · exact fun heq => nomatch heq
    · exact h.spared own hown

/-- Deeds for other policies that queue no samples do not concern a task. -/
theorem task_of_path (hhear : ∀ sample, ¬ kind (.hear sample))
    (hread : ∀ other, ¬ kind (.read other))
    (s t : Session) (h : Path kind s t) (hs : s.Sound) (hkept : s.Kept kind serial task) :
    t.monitors.tasks.get? serial = some task := by
  -- The invariant is that the task stands as it stood and that no deed to come is for its policy.
  refine (path_invariant (fun u => u.Kept kind serial task) ?_ s t h hs hkept).stored
  intro deed u v hkind hu hv hdoes hkept
  have hsame : v.monitors = u.monitors → v.Kept kind serial task := by
    intro hmonitors
    refine ⟨by rw [hmonitors, hkept.stored], ?_⟩
    rw [hmonitors]
    exact hkept.spared
  have heffect := hdoes.effect
  cases deed with
  | pass => exact hsame heffect.2
  | rest id => exact hsame heffect.2
  | hear sample => exact absurd hkind (hhear sample)
  | read other => exact absurd hkind (hread other)
  | create r =>
    rcases heffect with ⟨-, -, -, -, binding, condition, -, hmonitors⟩
    exact kept_started kind serial task u v hu hkept r.id condition binding hmonitors
  | revive id =>
    rcases heffect with ⟨-, r, -, -, binding, condition, -, hmonitors⟩
    exact kept_started kind serial task u v hu hkept id condition binding hmonitors
  | retire id => exact kept_without kind serial task u v hu hkept id (Or.inl hkind) heffect.2
  | remove id => exact kept_without kind serial task u v hu hkept id (Or.inr hkind) heffect.2

end Kept

section Others

variable (settings : Engine.Settings)

/-- A monitor that was told to stop ends without looking at a sample. -/
theorem run_turn_of_halted (s : Session) (handle : MonitorHandle) (binding : MonitorBinding)
    (m : Monitor) (sample : Sample) (h : s.monitors.isHalted handle.serial = true) :
    s.run (Engine.turn settings handle binding m sample) = ((m.stop, false), s) := by
  rw [run_turn, h]
  rfl

theorem serve_of_halted (s : Session) (handle : MonitorHandle) (binding : MonitorBinding)
    (queue : List Sample) (m : Monitor) (h : s.monitors.isHalted handle.serial = true) :
    (serve settings handle binding queue m s).2 = s := by
  cases queue with
  | nil => rfl
  | cons sample rest =>
    rw [serve_cons, run_turn_of_halted settings s handle binding m sample h]
    rfl

theorem serial_of_mem_serveTurns (handle : MonitorHandle) (binding : MonitorBinding)
    (queue : List Sample) (m : Monitor) (s : Session) (turn : Turn)
    (h : turn ∈ serveTurns settings handle binding queue m s) : turn.serial = handle.serial := by
  induction queue generalizing m s with
  | nil => exact absurd h List.not_mem_nil
  | cons sample rest ih =>
    rw [serveTurns] at h
    rcases List.mem_cons.mp h with rfl | h
    · rfl
    · split at h
      · exact ih _ _ h
      · exact absurd h List.not_mem_nil

/-- The turns of a task carry its serial number. -/
theorem serial_of_mem_taskTurns (s : Session) (hs : s.Sound) (serial : Nat) (turn : Turn)
    (h : turn ∈ s.taskTurns settings serial) : turn.serial = serial := by
  rw [taskTurns] at h
  split at h
  · exact absurd h List.not_mem_nil
  · rename_i task htask
    split at h
    · exact absurd h List.not_mem_nil
    · rw [serial_of_mem_serveTurns settings _ _ _ _ _ turn h]
      exact (hs.tables.launched serial _ (MonitorTable.core?_of_tasks _ serial task htask)).2.serial

/-- Nothing is queued while a task reads its queue. -/
theorem ready_runTask (s : Session) (hs : s.Counted) (serial : Nat)
    (heffort : (s.runTask settings serial).effort < Number.maxWord) :
    (s.runTask settings serial).monitors.ready = s.monitors.ready := by
  rw [runTask] at heffort ⊢
  cases htask : s.monitors.tasks.get? serial with
  | none => rfl
  | some task =>
    rw [htask] at heffort
    dsimp only at heffort ⊢
    split
    · rfl
    · rename_i hended
      rw [if_neg hended] at heffort
      rcases hs.described serial _ (MonitorTable.core?_of_tasks _ serial task htask) with
        ⟨r, hdescribes⟩
      have hreach := reaches_serve settings task.handle task.binding
        (PolicyRecord.storable_of_describes r _ _ hdescribes) task.queue task.monitor s
      have hready := ready_of_path _ (fun _ h => h) (fun _ h => h) _ _ (hreach.path heffort hs).2
        hs.toSound
      exact hready

theorem ready_runTasks (serials : List Nat) (s : Session) (hs : s.Counted)
    (heffort : (serials.foldl (runTask settings) s).effort < Number.maxWord) :
    (serials.foldl (runTask settings) s).monitors.ready = s.monitors.ready := by
  induction serials generalizing s with
  | nil => rfl
  | cons serial rest ih =>
    have hfirst := Nat.lt_of_le_of_lt
      (reaches_runTasks settings rest (s.runTask settings serial)).effort heffort
    have hcounted := ((reaches_runTask settings s serial).path hfirst hs).1
    exact (ih _ hcounted heffort).trans (ready_runTask settings s hs serial hfirst)

/-- When monitors have run, none of them has anything to read. -/
theorem ready_settle (s : Session) (hs : s.Counted)
    (heffort : (s.settle settings).effort < Number.maxWord) :
    (s.settle settings).monitors.ready = [] := by
  rw [settle_eq] at heffort ⊢
  have hunready := (reaches_unready settings s).path
    (Nat.lt_of_le_of_lt (reaches_runTasks settings _ s.unready).effort heffort) hs
  exact ready_runTasks settings _ _ hunready.1 heffort

section RunTask

variable (s : Session) (hs : s.Counted) (serial : Nat) (task : MonitorTask)
  (htask : s.monitors.tasks.get? serial = some task)

include hs htask

/-- When another task reads its queue, a task stays as it is. -/
theorem task_runTask (other : Nat) (hother : serial ≠ other)
    (heffort : (s.runTask settings other).effort < Number.maxWord) :
    (s.runTask settings other).monitors.tasks.get? serial = some task := by
  rw [runTask] at heffort ⊢
  cases htask' : s.monitors.tasks.get? other with
  | none => exact htask
  | some task' =>
    rw [htask'] at heffort
    dsimp only at heffort ⊢
    split
    · exact htask
    · rename_i hended
      rw [if_neg hended] at heffort
      have hcore := MonitorTable.core?_of_tasks _ other task' htask'
      have hserial : task'.handle.serial = other := (hs.tables.launched other _ hcore).2.serial
      rcases hs.described other _ hcore with ⟨r, hdescribes⟩
      have hreach := reaches_serve settings task'.handle task'.binding
        (PolicyRecord.storable_of_describes r _ _ hdescribes) task'.queue task'.monitor s
      refine ((Dict.get?_adjust _ _ _ _).trans (if_neg hother)).trans ?_
      cases hhalted : task'.halted with
      | true =>
        rw [serve_of_halted settings]
        · exact htask
        · rw [hserial, MonitorTable.isHalted, htask']
          exact hhalted
      | false =>
        -- A monitor that runs acts for its own policy, and that is not the one of the task.
        refine task_of_path _ serial task (fun _ h => h) (fun _ h => h) _ _
          (hreach.path heffort hs).2 hs.toSound ⟨htask, ?_⟩
        have hlive := hs.tables.running other _ hcore hhalted
        rintro id (⟨rfl, -⟩ | ⟨rfl, -⟩) heq
        · exact hother (Option.some.inj (heq.symm.trans hlive))
        · exact hother (Option.some.inj (heq.symm.trans hlive))

/-- The same for several other tasks that run one after the other. None of their turns is one of the
    task. -/
theorem task_runTasks (others : List Nat) (hothers : serial ∉ others)
    (heffort : (others.foldl (runTask settings) s).effort < Number.maxWord) :
    (others.foldl (runTask settings) s).monitors.tasks.get? serial = some task ∧
      (tasksTurns settings others s).filter (fun turn => turn.serial = serial) = [] := by
  induction others generalizing s with
  | nil => exact ⟨htask, rfl⟩
  | cons other rest ih =>
    rw [List.mem_cons, not_or] at hothers
    have hfirst := Nat.lt_of_le_of_lt
      (reaches_runTasks settings rest (s.runTask settings other)).effort heffort
    rcases ih _ ((reaches_runTask settings s other).path hfirst hs).1
      (task_runTask settings s hs serial task htask other hothers.1 hfirst) hothers.2 heffort with
      ⟨hstored, hnone⟩
    refine ⟨hstored, ?_⟩
    rw [tasksTurns, List.filter_append, hnone, List.append_nil, List.filter_eq_nil_iff]
    intro turn hturn
    rw [serial_of_mem_taskTurns settings s hs.toSound other turn hturn]
    simpa using Ne.symm hothers.1

end RunTask

end Others

/-! ### Samples -/

theorem run_ingestLines (lines : List String) (report : Engine.IngestReport) (s : Session) :
    (s.run (Engine.ingestLines lines report)).2 = s.withMonitors
      (s.monitors.deliverAll (lines.filterMap fun line => (Sample.parse line).toOption)) := by
  induction lines generalizing report s with
  | nil => rfl
  | cons line rest ih =>
    rw [Engine.ingestLines, run_bind, Engine.ingestLine, List.filterMap_cons]
    cases Sample.parse line with
    | error e => exact ih _ s
    | ok sample =>
      exact ih
        { report with
          samples := report.samples + 1
          delivered := report.delivered + (s.monitors.deliver sample).1 }
        (s.withMonitors (s.monitors.deliver sample).2)

/-- What comes of a text is that its samples are queued. -/
theorem run_ingest (text : String) (s : Session) : (s.run (Engine.ingest text)).2 =
    s.withMonitors (s.monitors.deliverAll (Operation.samples (.ingest text))) :=
  run_ingestLines _ _ s

end Session

end StoragePolicy
