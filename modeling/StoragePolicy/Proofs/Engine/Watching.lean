import StoragePolicy.Proofs.Engine.Dispatching
import StoragePolicy.Proofs.Engine.Turns
import StoragePolicy.Proofs.Monitor.Rising

/-!
# What becomes of samples

A monitor that knows what it has been given takes its action at those samples at which its condition
comes to hold. Here this is carried from one sample to a queue, from there to all monitors that run,
and from there to an operation. The action cannot fail, because the filter was known when the rule
was deployed and the catalog does not change, and the storage side agrees to everything.

A transient monitor ends with its first action. From then on its task is one that was told to stop,
and nothing is queued at it.

## Main definitions

* `MonitorTask.Watches`: A task whose monitor knows of the samples it has been given.
* `Session.Equipped`: A session in which the action of a monitor succeeds.
* `Session.Served`: What a monitor comes to that has read some samples.
* `Session.Reads`: What the task of a monitor comes to that has read some samples.
* `Session.Follows`: A task between operations, by the samples it has been given.
* `Session.Operation.Spares`: Operations that do not stop the monitor of a task.

## Theorems

* `run_turn_fires`: A monitor that fires takes its action once.
* `served_of_tracks`: A monitor that reads a queue fires where its condition rises.
* `reads_settle`: So it does while all monitors run.
* `follows_perform`, `follows_performAll`: What an operation makes of its samples, and what several
  do.
-/

namespace StoragePolicy

open Registry

/-- A task of a policy that has nothing to read and whose monitor knows of the samples it has been
    given. -/
structure MonitorTask.Watches (task : MonitorTask) (id : Nat) (binding : MonitorBinding)
    (c : Condition) (samples : List Sample) : Prop where
  policyId : task.handle.policyId = id
  binding : task.binding = binding
  tracks : task.monitor.Tracks c samples
  halted : task.halted = false
  ended : task.ended = false
  queue : task.queue = []

namespace Session

/-- A turn with whether anything was asked of the storage side in it. -/
def Turn.fired (turn : Turn) : Sample × Bool := (turn.sample, !turn.calls.isEmpty)

/-- A session in which the action of a monitor succeeds: its filter is known, and the storage side
    agrees to everything. -/
structure Equipped (s : Session) (binding : MonitorBinding) (filter : FilterSpec) : Prop where
  counted : s.Counted
  known : (on (getFilter binding.action.filterName) s.store).1 = .ok (some filter)
  accepts : ∀ calls call, s.storage.answer calls call = .ok ()

theorem equipped_of_path (kind : Deed → Prop) (s t : Session) (binding : MonitorBinding)
    (filter : FilterSpec) (h : s.Equipped binding filter) (ht : t.Counted) (hpath : Path kind s t)
    (hanswer : t.storage.answer = s.storage.answer) : t.Equipped binding filter where
  counted := ht
  known := by rw [on_getFilter_congr _ _ (catalog_of_path kind s t hpath), h.known]
  accepts := by rw [hanswer]; exact h.accepts

/-! ### One sample -/

section Turn

variable (settings : Engine.Settings) (handle : MonitorHandle) (binding : MonitorBinding)
  (filter : FilterSpec) (m : Monitor) (sample : Sample) (s : Session)

/-- A monitor that does not fire has only looked at the sample. -/
theorem run_turn_waits (hrunning : s.monitors.isHalted handle.serial = false)
    (hwaits : (m.observe sample.metric sample.value).1 = false) :
    s.run (Engine.turn settings handle binding m sample) =
      (((m.observe sample.metric sample.value).2, true), s) := by
  rw [run_turn, hrunning, if_neg (by simp)]
  rcases hobserve : m.observe sample.metric sample.value with ⟨fires, m'⟩
  rw [hobserve] at hwaits
  cases hwaits
  rfl

theorem run_afterPersistentFire (hopen : s.Open) (id : Nat) :
    ∃ d, s.run (Engine.afterPersistentFire settings id) = ((), s.withStore d) := by
  rw [Engine.afterPersistentFire]
  cases settings.aliveAfterFire with
  | true => exact ⟨s.store, rfl⟩
  | false =>
    simp only [Bool.not_false, if_true]
    rw [run_discard_program, run_ofRegistry s _ hopen]
    exact ⟨_, rfl⟩

theorem run_retire_of_live (hs : s.Sound) (id : Nat) (hlive : s.monitors.isLive id = true) :
    ∃ d, s.run (Engine.retire settings id) =
      ((), (s.withMonitors (s.monitors.without id)).withStore d) := by
  rw [run_retire s id settings hs, hlive, if_pos rfl]
  cases settings.retirement with
  | markInactive => exact ⟨_, rfl⟩
  | delete => exact ⟨_, rfl⟩

/-- A monitor that fires takes its action, which asks the storage side once. A transient monitor is
    stopped by it, and another goes on. -/
theorem run_turn_fires (hs : s.Equipped binding filter)
    (hrunning : s.monitors.isHalted handle.serial = false)
    (hlive : s.monitors.isLive handle.policyId = true)
    (hfilter : ∀ filter, binding.objectFilter = some filter → filter.Storable)
    (hkind : m.kind = .ofAction binding.action)
    (hfires : (m.observe sample.metric sample.value).1 = true)
    (heffort : (s.run (Engine.turn settings handle binding m sample)).2.effort < Number.maxWord) :
    ∃ call, call.Takes binding filter ∧
      (s.run (Engine.turn settings handle binding m sample)).2.storage.calls =
        s.storage.calls ++ [call] ∧
      (s.run (Engine.turn settings handle binding m sample)).1.2 = !binding.action.transient ∧
      (binding.action.transient = false →
        (s.run (Engine.turn settings handle binding m sample)).1.1 =
            (m.observe sample.metric sample.value).2 ∧
          (s.run (Engine.turn settings handle binding m sample)).2.monitors = s.monitors) ∧
      (binding.action.transient = true →
        (s.run (Engine.turn settings handle binding m sample)).2.monitors =
          s.monitors.without handle.policyId) := by
  have hroom := Nat.lt_of_le_of_lt (effort_run _ s) heffort
  have hobserve := observe_core m sample.metric sample.value
  rcases run_dispatch s hs.counted hroom binding filter hs.known (hs.accepts _) with
    ⟨outcome, d, call, htakes, hdispatch⟩
  have hwork := works_dispatch (Acts settings handle.policyId) trivial binding.target binding.action
    binding.objectFilter hfilter s
  refine ⟨call, htakes, ?_⟩
  rw [run_turn, hrunning, if_neg (by simp)] at heffort ⊢
  generalize m.observe sample.metric sample.value = observed at *
  rcases observed with ⟨fires, m'⟩
  cases (show fires = true from hfires)
  dsimp only at hobserve heffort ⊢
  rw [run_bind, hdispatch] at heffort ⊢
  rw [hdispatch] at hwork
  -- From here on the state after the action has a name. What is used of it are its monitors and
  -- its calls.
  have hmonitors : ((s.withStore d).withStorage (s.storage.receive call).2).monitors =
      s.monitors := rfl
  have hcalls : ((s.withStore d).withStorage (s.storage.receive call).2).storage.calls =
      s.storage.calls ++ [call] := rfl
  generalize (s.withStore d).withStorage (s.storage.receive call).2 = u at *
  have hok : (Except.ok outcome : Except EngineError Engine.Outcome).isOk = true := rfl
  have hu := (hwork.path (Nat.lt_of_le_of_lt (effort_run _ u) heffort) hs.counted).1
  rw [hok] at heffort ⊢
  clear heffort
  cases htransient : binding.action.transient with
  | true =>
    have hconclude := conclude_of_transient m'
      (by rw [hobserve.1, hkind, MonitorKind.ofAction, htransient, if_pos rfl])
    -- The flag is read once more, and the action has not set it.
    have hasked : u.run (do
        let halted : Bool ← Engine.ask (.isHalted handle.serial)
        if !halted then Engine.retire settings handle.policyId
        return (m'.stop.stop, false)) = u.run (do
        if !u.monitors.isHalted handle.serial then Engine.retire settings handle.policyId
        return (m'.stop.stop, false)) := rfl
    rw [← hmonitors] at hlive
    rcases run_retire_of_live settings u hu.toSound handle.policyId hlive with ⟨d', hretire⟩
    rw [hconclude]
    dsimp only
    rw [hasked, run_when, hmonitors, hrunning, Bool.not_false, if_pos rfl, hretire]
    refine ⟨hcalls, rfl, (fun h => by cases h), fun _ => ?_⟩
    rw [← hmonitors]
    rfl
  | false =>
    have hconclude := conclude_of_persistent m'
      (by rw [hobserve.1, hkind, MonitorKind.ofAction, htransient, if_neg Bool.false_ne_true])
    rcases run_afterPersistentFire settings u hu.unrefused handle.policyId with ⟨d', hafter⟩
    rw [hconclude]
    dsimp only
    rw [run_when, if_pos rfl, hafter]
    exact ⟨hcalls, rfl, fun _ => ⟨rfl, hmonitors⟩, fun h => by cases h⟩

end Turn

/-! ### The samples of one monitor -/

/-- What a monitor comes to that has read some samples after others: it has fired where its
    condition rises, each time with one call to the storage side. If it is spent it has ended and
    its policy is stopped, and otherwise it goes on and knows of the samples. -/
structure Served (s : Session) (id : Nat) (binding : MonitorBinding) (filter : FilterSpec)
    (c : Condition) (before queue : List Sample) (turns : List Turn)
    (result : (Monitor × Bool) × Session) : Prop where
  fired : turns.map Turn.fired = c.firings binding.action.transient before queue
  taken : ∀ turn ∈ turns, turn.calls = [] ∨
    ∃ call, turn.calls = [call] ∧ call.Takes binding filter
  goesOn : result.1.2 = !c.spent binding.action.transient before queue
  tracks : c.spent binding.action.transient before queue = false →
    result.1.1.Tracks c (before ++ queue) ∧ result.2.monitors = s.monitors
  stopped : c.spent binding.action.transient before queue = true →
    result.2.monitors = s.monitors.without id

section Serve

variable (settings : Engine.Settings) (handle : MonitorHandle) (binding : MonitorBinding)
  (filter : FilterSpec) (c : Condition)

/-- A sample after which a monitor goes on, and those that it reads then. -/
theorem served_cons (id : Nat) (before : List Sample) (sample : Sample) (rest : List Sample)
    (s t : Session) (turn : Turn) (turns : List Turn) (result : (Monitor × Bool) × Session)
    (hmonitors : t.monitors = s.monitors) (hfired : turn.fired = (sample, c.rises before sample))
    (htaken : turn.calls = [] ∨ ∃ call, turn.calls = [call] ∧ call.Takes binding filter)
    (hgoesOn : (binding.action.transient && c.rises before sample) = false)
    (h : t.Served id binding filter c (before ++ [sample]) rest turns result) :
    s.Served id binding filter c before (sample :: rest) (turn :: turns) result := by
  have hspent := c.spent_cons binding.action.transient before sample rest
  rw [hgoesOn, Bool.false_or] at hspent
  refine ⟨?_, List.forall_mem_cons.mpr ⟨htaken, h.taken⟩, ?_, ?_, ?_⟩
  · rw [List.map_cons, h.fired, hfired, Condition.firings, hgoesOn, if_neg (by simp)]
  · rw [hspent]
    exact h.goesOn
  · have hsplit : before ++ sample :: rest = (before ++ [sample]) ++ rest := by
      rw [List.append_assoc, List.singleton_append]
    rw [hspent, hsplit, ← hmonitors]
    exact h.tracks
  · rw [hspent, ← hmonitors]
    exact h.stopped

variable (hfilter : ∀ filter, binding.objectFilter = some filter → filter.Storable)

include hfilter

/-- A monitor that knows of the samples before reads a queue, and fires where its condition
    rises. -/
theorem served_of_tracks (queue before : List Sample) (m : Monitor) (s : Session)
    (hs : s.Equipped binding filter) (hrunning : s.monitors.isHalted handle.serial = false)
    (hlive : s.monitors.isLive handle.policyId = true) (hkind : m.kind = .ofAction binding.action)
    (htracks : m.Tracks c before)
    (heffort : (serve settings handle binding queue m s).2.effort < Number.maxWord) :
    s.Served handle.policyId binding filter c before queue
      (serveTurns settings handle binding queue m s) (serve settings handle binding queue m s) := by
  induction queue generalizing before m s with
  | nil =>
    refine ⟨rfl, fun _ h => absurd h List.not_mem_nil, ?_, fun _ => ⟨?_, rfl⟩, fun h => ?_⟩
    · simp [serve, Condition.spent, Condition.firings]
    · rw [List.append_nil]
      exact htracks
    · simp [Condition.spent, Condition.firings] at h
  | cons sample rest ih =>
    rcases m.observe_of_tracks c before sample htracks with ⟨hobserve, hnext⟩
    have hkind' := (observe_core m sample.metric sample.value).1.trans hkind
    rw [serve_cons] at heffort ⊢
    rw [serveTurns]
    cases hrises : c.rises before sample with
    | false =>
      rw [hrises] at hobserve
      have hrun := run_turn_waits settings handle binding m sample s hrunning hobserve
      rw [hrun] at heffort ⊢
      dsimp only at heffort ⊢
      rw [if_pos rfl] at heffort ⊢
      rw [List.drop_length]
      exact served_cons binding filter c _ before sample rest s s _ _ _ rfl (by rw [hrises]; rfl)
        (Or.inl rfl) (by rw [hrises, Bool.and_false])
        (ih (before ++ [sample]) _ s hs hrunning hlive hkind' hnext heffort)
    | true =>
      rw [hrises] at hobserve
      have hle : (s.run (Engine.turn settings handle binding m sample)).2.effort <
          Number.maxWord := by
        refine Nat.lt_of_le_of_lt ?_ heffort
        split
        · exact (core_serve settings handle binding rest _ _).1
        · exact Nat.le_refl _
      rcases run_turn_fires settings handle binding filter m sample s hs hrunning hlive hfilter
        hkind hobserve hle with ⟨call, htakes, hcalls, hgoesOn, hpersistent, htransient⟩
      have hcounted := (works_turn settings handle binding hfilter m sample s).path hle hs.counted
      have hanswer := (called_run (Engine.turn settings handle binding m sample) s).answer
      generalize s.run (Engine.turn settings handle binding m sample) = outcome at *
      rcases outcome with ⟨⟨m', goesOn⟩, t⟩
      dsimp only at heffort hcalls hgoesOn hpersistent htransient hcounted hanswer ⊢
      rw [hcalls, List.drop_left]
      cases hkept : binding.action.transient with
      | true =>
        -- The monitor ends here, and the other samples are not read.
        rw [hkept, Bool.not_true] at hgoesOn
        subst hgoesOn
        have hspent := c.spent_cons true before sample rest
        rw [hrises, Bool.and_true, Bool.true_or] at hspent
        refine ⟨?_, ?_, ?_, fun h => ?_, fun _ => htransient hkept⟩
        · rw [hkept, Condition.firings, hrises]
          rfl
        · intro turn hturn
          rcases List.mem_cons.mp hturn with rfl | hturn
          · exact Or.inr ⟨call, rfl, htakes⟩
          · exact absurd hturn List.not_mem_nil
        · rw [hkept, hspent]
          rfl
        · rw [hkept, hspent] at h
          cases h
      | false =>
        rw [hkept, Bool.not_false] at hgoesOn
        subst hgoesOn
        rw [if_pos rfl] at heffort ⊢
        rcases hpersistent hkept with ⟨rfl, hmonitors⟩
        rw [← hmonitors] at hrunning hlive
        exact served_cons binding filter c _ before sample rest s t _ _ _ hmonitors
          (by rw [hrises]; rfl) (Or.inr ⟨call, rfl, htakes⟩) (by rw [hkept, Bool.false_and])
          (ih (before ++ [sample]) _ t
            (equipped_of_path _ s t binding filter hs hcounted.1 hcounted.2 hanswer) hrunning hlive
            hkind' hnext heffort)

end Serve

/-! ### All monitors -/

/-- What the task of a monitor comes to that reads some samples after others, by the turns it takes:
    it is told to stop if the monitor is spent, and watches otherwise. -/
structure Reads (serial id : Nat) (binding : MonitorBinding) (filter : FilterSpec) (c : Condition)
    (before queue : List Sample) (turns : List Turn) (t : Session) : Prop where
  fired : turns.map Turn.fired = c.firings binding.action.transient before queue
  taken : ∀ turn ∈ turns, turn.calls = [] ∨
    ∃ call, turn.calls = [call] ∧ call.Takes binding filter
  watches : c.spent binding.action.transient before queue = false →
    ∃ task, t.monitors.tasks.get? serial = some task ∧ task.Watches id binding c (before ++ queue)
  gone : c.spent binding.action.transient before queue = true →
    ∃ task, t.monitors.tasks.get? serial = some task ∧ task.halted = true

/-- A task that has read samples is there. -/
theorem stored_of_reads (serial id : Nat) (binding : MonitorBinding) (filter : FilterSpec)
    (c : Condition) (before queue : List Sample) (turns : List Turn) (t : Session)
    (h : Reads serial id binding filter c before queue turns t) :
    ∃ task, t.monitors.tasks.get? serial = some task := by
  cases hspent : c.spent binding.action.transient before queue with
  | false => exact (h.watches hspent).imp fun _ htask => htask.1
  | true => exact (h.gone hspent).imp fun _ htask => htask.1

section Settle

variable (settings : Engine.Settings) (serial : Nat) (filter : FilterSpec) (c : Condition)

theorem tasks_putTask (s : Session) (m : Monitor) (goesOn : Bool) :
    (s.putTask serial m goesOn).monitors.tasks.get? serial =
      (s.monitors.tasks.get? serial).map fun task =>
        { task with monitor := m, queue := [], ended := !goesOn } :=
  (Dict.get?_adjust _ _ _ _).trans (if_pos rfl)

section Own

variable (before : List Sample) (task : MonitorTask) (s : Session)
  (hs : s.Equipped task.binding filter) (htask : s.monitors.tasks.get? serial = some task)
  (hhalted : task.halted = false) (hended : task.ended = false)
  (htracks : task.monitor.Tracks c before)

include hs htask hhalted hended htracks

/-- A task that runs reads its queue. -/
theorem reads_runTask (heffort : (s.runTask settings serial).effort < Number.maxWord) :
    Reads serial task.handle.policyId task.binding filter c before task.queue
      (s.taskTurns settings serial) (s.runTask settings serial) := by
  have hcore := MonitorTable.core?_of_tasks _ serial task htask
  -- That the task runs tells whose it is: its handle has the number under which it stands, and it
  -- is the live one of its policy.
  have hlaunched := (hs.counted.tables.launched serial _ hcore).2
  have hserial : task.handle.serial = serial := hlaunched.serial
  have hkind : task.monitor.kind = .ofAction task.binding.action :=
    hlaunched.monitorKind.trans hlaunched.handleKind
  have hlive := (MonitorTable.live_iff_of_running _ hs.counted.tables serial task htask hhalted
    task.handle.policyId).mpr rfl
  have hrunning : s.monitors.isHalted task.handle.serial = false := by
    rw [hserial, MonitorTable.isHalted, htask]
    exact hhalted
  rcases hs.counted.described serial _ hcore with ⟨r, hdescribes⟩
  have hserved := served_of_tracks settings task.handle task.binding filter c
    (PolicyRecord.storable_of_describes r _ _ hdescribes) task.queue before task.monitor s hs
    hrunning ((MonitorTable.isLive_iff _ _).mpr ⟨serial, hlive⟩) hkind htracks
  rw [runTask, htask] at heffort ⊢
  rw [taskTurns, htask]
  dsimp only at heffort ⊢
  rw [if_neg (by rw [hended]; simp)] at heffort ⊢
  rw [if_neg (by rw [hended]; simp)]
  have hserved := hserved heffort
  clear heffort
  generalize serveTurns settings task.handle task.binding task.queue task.monitor s = turns at *
  generalize serve settings task.handle task.binding task.queue task.monitor s = result at *
  rcases result with ⟨⟨m, goesOn⟩, t⟩
  have hgoesOn := hserved.goesOn
  -- A task that is spent has been stopped. Another one goes on with an empty queue.
  cases hspent : c.spent task.binding.action.transient before task.queue with
  | false =>
    rcases hserved.tracks hspent with ⟨hm, hmonitors⟩
    rw [hspent] at hgoesOn
    cases hgoesOn
    dsimp only at hm hmonitors ⊢
    refine ⟨hserved.fired, hserved.taken, fun _ => ?_, fun h => ?_⟩
    · refine ⟨{ task with monitor := m, queue := [], ended := false }, ?_, rfl, rfl, hm, hhalted,
        rfl, rfl⟩
      rw [tasks_putTask, hmonitors, htask]
      rfl
    · rw [hspent] at h
      cases h
  | true =>
    have hmonitors := hserved.stopped hspent
    dsimp only at hmonitors ⊢
    refine ⟨hserved.fired, hserved.taken, fun h => ?_, fun _ => ?_⟩
    · rw [hspent] at h
      cases h
    · refine ⟨{ task with monitor := m, queue := [], halted := true, ended := !goesOn }, ?_, rfl⟩
      rw [tasks_putTask, hmonitors,
        MonitorTable.tasks_without_own _ serial hs.counted.tables _ task hlive htask]
      rfl

end Own

/-- All monitors run, and the one of the task among them if it has anything to read. -/
theorem reads_settle (before : List Sample) (task : MonitorTask) (s : Session)
    (hs : s.Equipped task.binding filter) (hwaiting : s.monitors.Waiting serial task)
    (htracks : task.monitor.Tracks c before)
    (heffort : (s.settle settings).effort < Number.maxWord) :
    Reads serial task.handle.policyId task.binding filter c before task.queue
      ((s.settleTurns settings).filter fun turn => turn.serial = serial) (s.settle settings) := by
  rw [settle_eq] at heffort ⊢
  rw [settleTurns]
  have hbegin := reaches_unready settings s
  have hstored : s.unready.monitors.tasks.get? serial = some task := hwaiting.stored
  have hunready := hbegin.path
    (Nat.lt_of_le_of_lt (reaches_runTasks settings _ s.unready).effort heffort) hs.counted
  have hs := equipped_of_path _ s s.unready _ filter hs hunready.1 hunready.2 rfl
  generalize s.unready = u at *
  clear hbegin hunready
  by_cases hmem : serial ∈ s.monitors.ready
  · -- The tasks before it and those after it leave it alone.
    rcases List.append_of_mem hmem with ⟨first, second, heq⟩
    have honce := hwaiting.once
    rw [heq, List.nodup_append, List.nodup_cons] at honce
    have hfirst : serial ∉ first := fun h => honce.2.2 serial h serial List.mem_cons_self rfl
    rw [heq, List.foldl_append, List.foldl_cons] at heffort ⊢
    rw [tasksTurns_append, tasksTurns]
    have hlast := reaches_runTasks settings second
      ((first.foldl (runTask settings) u).runTask settings serial)
    have hown := reaches_runTask settings (first.foldl (runTask settings) u) serial
    have hown' := Nat.lt_of_le_of_lt hlast.effort heffort
    have hfirst' := Nat.lt_of_le_of_lt hown.effort hown'
    rcases task_runTasks settings u hs.counted serial task hstored first hfirst hfirst' with
      ⟨hstored', hnone⟩
    rcases (reaches_runTasks settings first u).path hfirst' hs.counted with ⟨hcounted, hpath⟩
    have hequipped := equipped_of_path _ u _ _ filter hs hcounted hpath
      (called_runTasks settings first u).1
    generalize first.foldl (runTask settings) u = v at *
    have hreads := reads_runTask settings serial filter c before task v hequipped hstored'
      hwaiting.halted hwaiting.ended htracks hown'
    have hcounted' := (hown.path hown' hcounted).1
    have hturns := serial_of_mem_taskTurns settings v hcounted.toSound serial
    generalize v.taskTurns settings serial = turns at *
    generalize v.runTask settings serial = w at *
    rcases stored_of_reads serial _ _ filter c before _ turns w hreads with ⟨task', htask'⟩
    rcases task_runTasks settings w hcounted' serial task' htask' second honce.2.1.1 heffort with
      ⟨hlater, hnone'⟩
    rw [List.filter_append, List.filter_append, hnone, hnone', List.nil_append, List.append_nil,
      List.filter_eq_self.mpr fun turn hturn => decide_eq_true (hturns turn hturn)]
    refine ⟨hreads.fired, hreads.taken, ?_, ?_⟩
    · rw [hlater, ← htask']
      exact hreads.watches
    · rw [hlater, ← htask']
      exact hreads.gone
  · have hempty : task.queue = [] := Classical.not_not.mp fun h => hmem (hwaiting.ready.mpr h)
    rcases task_runTasks settings u hs.counted serial task hstored _ hmem heffort with
      ⟨hstored', hnone⟩
    rw [hnone, hempty]
    refine ⟨rfl, fun _ h => absurd h List.not_mem_nil, fun _ => ?_, fun h => ?_⟩
    · rw [List.append_nil]
      exact ⟨task, hstored', rfl, rfl, htracks, hwaiting.halted, hwaiting.ended, hempty⟩
    · simp [Condition.spent, Condition.firings] at h

/-- A task that was told to stop stays so while all monitors run, and takes no turn. -/
theorem halted_settle (task : MonitorTask) (s : Session) (hs : s.Counted)
    (hhalted : s.monitors.Halted serial task)
    (heffort : (s.settle settings).effort < Number.maxWord) :
    (s.settle settings).monitors.tasks.get? serial = some task ∧
      (s.settleTurns settings).filter (fun turn => turn.serial = serial) = [] := by
  rw [settle_eq] at heffort ⊢
  rw [settleTurns]
  have hunready := (reaches_unready settings s).path
    (Nat.lt_of_le_of_lt (reaches_runTasks settings _ s.unready).effort heffort) hs
  exact task_runTasks settings s.unready hunready.1 serial task hhalted.stored _ hhalted.ready
    heffort

end Settle

/-! ### Operations -/

/-- The samples of a tenant that an operation brings. -/
def Operation.heard (tenantId : String) (operation : Operation) : List Sample :=
  operation.samples.filter fun x => x.tenantId = tenantId

/-- Operations that do not stop the monitor of a task: rules are deployed, entries are updated and
    deleted, other policies are deleted, and samples come in. -/
def Operation.Spares (s : Session) (serial : Nat) : Operation → Prop
  | .deleteDynamic id => s.monitors.live.get? id ≠ some serial
  | .respawn _ | .reload | .shutdown => False
  | .deploy _ | .deleteStatic _ _ | .updateStatic _ _ _ | .ingest _ => True

/-- A task between operations, by the samples it has been given since it was started: it watches,
    unless its monitor is spent, and then it was told to stop. No task has anything to read. -/
structure Follows (s : Session) (serial id : Nat) (binding : MonitorBinding) (c : Condition)
    (samples : List Sample) : Prop where
  ready : s.monitors.ready = []
  watches : c.spent binding.action.transient [] samples = false →
    ∃ task, s.monitors.tasks.get? serial = some task ∧ task.Watches id binding c samples
  gone : c.spent binding.action.transient [] samples = true →
    ∃ task, s.monitors.tasks.get? serial = some task ∧ task.halted = true

/-- A task that is followed is there. -/
theorem stored_of_follows (s : Session) (serial id : Nat) (binding : MonitorBinding)
    (c : Condition) (samples : List Sample) (h : s.Follows serial id binding c samples) :
    ∃ task, s.monitors.tasks.get? serial = some task := by
  cases hspent : c.spent binding.action.transient [] samples with
  | false => exact (h.watches hspent).imp fun _ htask => htask.1
  | true => exact (h.gone hspent).imp fun _ htask => htask.1

/-- The turns of a task in which it reads samples after those it has been given, if its monitor is
    not spent. In each of them it asks the storage side once or not at all. -/
structure Tells (binding : MonitorBinding) (filter : FilterSpec) (c : Condition)
    (samples heard : List Sample) (turns : List Turn) : Prop where
  fired : turns.map Turn.fired = if c.spent binding.action.transient [] samples then []
    else c.firings binding.action.transient samples heard
  taken : ∀ turn ∈ turns, turn.calls = [] ∨
    ∃ call, turn.calls = [call] ∧ call.Takes binding filter

section Operations

variable (directory : Directory) (settings : Engine.Settings)

/-- The operations leave the monitor of a task alone, each in the state in which it is performed. -/
def AllSpare (serial : Nat) : List Operation → Session → Prop
  | [], _ => True
  | operation :: rest, s =>
    operation.Spares s serial ∧ AllSpare serial rest (s.perform directory settings operation)

variable (serial id : Nat) (binding : MonitorBinding) (filter : FilterSpec) (c : Condition)

/-- The program of an operation that brings no samples does not concern a task which it spares. -/
theorem task_program (s : Session) (hs : s.Counted) (hdirectory : directory.Slashless s.store)
    (operation : Operation) (hspares : operation.Spares s serial)
    (hsilent : ∀ text, operation ≠ .ingest text) (task : MonitorTask)
    (htask : s.monitors.tasks.get? serial = some task)
    (heffort : (s.run (operation.program directory settings)).2.effort < Number.maxWord) :
    (s.run (operation.program directory settings)).2.monitors.tasks.get? serial = some task ∧
      (s.run (operation.program directory settings)).2.monitors.ready = s.monitors.ready := by
  have hreach := reaches_program directory settings s hdirectory operation fun h => by
    rw [h] at hspares
    exact hspares
  have hquiet : (∀ sample, ¬ operation.Deeds (.hear sample)) ∧
      (∀ other, ¬ operation.Deeds (.read other)) ∧
      ∀ id, operation.Deeds (.retire id) ∨ operation.Deeds (.remove id) →
        s.monitors.live.get? id ≠ some serial := by
    cases operation with
    | ingest text => exact absurd rfl (hsilent text)
    | deleteDynamic id =>
      refine ⟨(fun _ h => nomatch h), (fun _ h => nomatch h), fun other hother => ?_⟩
      rcases hother with h | h
      · exact nomatch h
      · cases h
        exact hspares
    | _ => simp [Operation.Deeds, Grows, Revives]
  have hpath := (hreach.path heffort hs).2
  exact ⟨task_of_path _ serial task hquiet.1 hquiet.2.1 _ _ hpath hs.toSound ⟨htask, hquiet.2.2⟩,
    ready_of_path _ hquiet.1 hquiet.2.1 _ _ hpath hs.toSound⟩

/-- Samples have been queued, and the monitors run. -/
theorem follows_settle (samples : List Sample) (s t : Session) (hs : s.Counted)
    (hfollows : s.Follows serial id binding c samples) (text : String)
    (ht : t.Equipped binding filter)
    (hqueued : t.monitors = s.monitors.deliverAll (Operation.samples (.ingest text)))
    (heffort : (t.settle settings).effort < Number.maxWord) :
    (t.settle settings).Follows serial id binding c
        (samples ++ Operation.heard binding.target.tenantId (.ingest text)) ∧
      Tells binding filter c samples (Operation.heard binding.target.tenantId (.ingest text))
        ((t.settleTurns settings).filter fun turn => turn.serial = serial) := by
  have hready := ready_settle settings t ht.counted heffort
  cases hspent : c.spent binding.action.transient [] samples with
  | false =>
    rcases hfollows.watches hspent with
      ⟨task, htask, rfl, rfl, htracks, hhalted, hended, hqueue⟩
    have hwaiting : s.monitors.Waiting serial task :=
      ⟨htask, hhalted, hended, by simp [hfollows.ready, hqueue], by simp [hfollows.ready]⟩
    have hlater := MonitorTable.waiting_deliverAll _ hs.tables serial task hwaiting
      (Operation.samples (.ingest text))
    rw [hqueue, List.nil_append, ← hqueued] at hlater
    have hreads := reads_settle settings serial filter c samples
      { task with queue := Operation.heard task.binding.target.tenantId (.ingest text) } t
      ht hlater htracks heffort
    have hafter := c.spent_append task.binding.action.transient [] samples
      (Operation.heard task.binding.target.tenantId (.ingest text))
    rw [hspent, Bool.false_or, List.nil_append] at hafter
    refine ⟨⟨hready, ?_, ?_⟩, ?_, hreads.taken⟩
    · rw [hafter]
      exact hreads.watches
    · rw [hafter]
      exact hreads.gone
    · rw [hspent, if_neg (by simp)]
      exact hreads.fired
  | true =>
    -- The task was told to stop before, so that nothing has been queued at it.
    rcases hfollows.gone hspent with ⟨task, htask, hhalted⟩
    have hlater := MonitorTable.halted_deliverAll _ hs.tables serial task
      ⟨htask, hhalted, by simp [hfollows.ready]⟩ (Operation.samples (.ingest text))
    rw [← hqueued] at hlater
    rcases halted_settle settings serial task t ht.counted hlater heffort with ⟨hstored, hnone⟩
    refine ⟨⟨hready, fun h => ?_, fun _ => ⟨task, hstored, hhalted⟩⟩, ?_, ?_⟩
    · rw [c.spent_append, hspent] at h
      cases h
    · rw [hnone, hspent]
      rfl
    · rw [hnone]
      exact fun _ h => absurd h List.not_mem_nil

/-- Nothing has been queued, and no monitor runs. -/
theorem follows_settle_of_ready (samples : List Sample) (s t : Session)
    (hfollows : s.Follows serial id binding c samples)
    (htask : ∀ task, s.monitors.tasks.get? serial = some task →
      t.monitors.tasks.get? serial = some task) (hready : t.monitors.ready = []) :
    (t.settle settings).Follows serial id binding c samples ∧
      Tells binding filter c samples []
        ((t.settleTurns settings).filter fun turn => turn.serial = serial) := by
  rw [settle_of_ready settings _ hready, settleTurns, hready]
  refine ⟨⟨hready, fun hspent => ?_, fun hspent => ?_⟩, ?_, ?_⟩
  · rcases hfollows.watches hspent with ⟨task, hstored, hwatches⟩
    exact ⟨task, htask task hstored, hwatches⟩
  · rcases hfollows.gone hspent with ⟨task, hstored, hhalted⟩
    exact ⟨task, htask task hstored, hhalted⟩
  · cases c.spent binding.action.transient [] samples <;> rfl
  · exact fun _ h => absurd h List.not_mem_nil

/-- What an operation makes of its samples. -/
theorem follows_perform (samples : List Sample) (s : Session) (hs : s.Equipped binding filter)
    (hdirectory : directory.Slashless s.store) (hfollows : s.Follows serial id binding c samples)
    (operation : Operation) (hspares : operation.Spares s serial)
    (heffort : (s.perform directory settings operation).effort < Number.maxWord) :
    (s.perform directory settings operation).Follows serial id binding c
        (samples ++ operation.heard binding.target.tenantId) ∧
      Tells binding filter c samples (operation.heard binding.target.tenantId)
        (((s.run (operation.program directory settings)).2.settleTurns settings).filter
          fun turn => turn.serial = serial) := by
  rw [perform] at heffort ⊢
  have hsettle := reaches_settle settings (s.run (operation.program directory settings)).2
  have hprogram := Nat.lt_of_le_of_lt hsettle.effort heffort
  -- Only an ingestion queues samples. After another operation the queue is as empty as before.
  by_cases hingest : ∃ text, operation = .ingest text
  · rcases hingest with ⟨text, rfl⟩
    rw [Operation.program, run_discard_program] at heffort hprogram ⊢
    rcases (reaches_ingest text s).path hprogram hs.counted with ⟨hcounted, hpath⟩
    refine follows_settle settings serial id binding filter c samples s _ hs.counted hfollows text
      (equipped_of_path _ s _ binding filter hs hcounted hpath
        (called_run (Engine.ingest text) s).answer) ?_ heffort
    rw [run_ingest]
    rfl
  · have hsilent : ∀ text, operation ≠ .ingest text := fun text h => hingest ⟨text, h⟩
    have hheard : operation.heard binding.target.tenantId = [] := by
      cases operation with
      | ingest text => exact absurd rfl (hsilent text)
      | _ => rfl
    have htask := task_program directory settings serial s hs.counted hdirectory operation hspares
      hsilent
    rw [hheard, List.append_nil]
    refine follows_settle_of_ready settings serial id binding filter c samples s _ hfollows
      (fun task hstored => (htask task hstored hprogram).1) ?_
    rcases stored_of_follows s serial id binding c samples hfollows with ⟨task, hstored⟩
    exact (htask task hstored hprogram).2.trans hfollows.ready

/-- After an operation that spares the monitor its action succeeds as before. -/
theorem equipped_perform (s : Session) (hs : s.Equipped binding filter)
    (hdirectory : directory.Slashless s.store) (operation : Operation)
    (hspares : operation.Spares s serial)
    (heffort : (s.perform directory settings operation).effort < Number.maxWord) :
    (s.perform directory settings operation).Equipped binding filter ∧
      directory.Slashless (s.perform directory settings operation).store := by
  have hprogram := reaches_program directory settings s hdirectory operation fun h => by
    rw [h] at hspares
    exact hspares
  have hanswer := (called_run (operation.program directory settings) s).answer
  rw [perform] at heffort ⊢
  generalize (s.run (operation.program directory settings)).2 = t at *
  have hsettle := reaches_settle settings t
  rcases hprogram.path (Nat.lt_of_le_of_lt hsettle.effort heffort) hs.counted with ⟨ht, hfirst⟩
  rcases hsettle.path heffort ht with ⟨hcounted, hsecond⟩
  have hequipped := equipped_of_path _ s t binding filter hs ht hfirst hanswer
  refine ⟨equipped_of_path _ t _ binding filter hequipped hcounted hsecond
    (answer_settle settings t), ?_⟩
  refine Directory.slashless_of_sameCatalog directory _ _ ?_ (catalog_of_path _ t _ hsecond)
  exact Directory.slashless_of_sameCatalog directory _ _ hdirectory (catalog_of_path _ s t hfirst)

/-- What several operations make of their samples. -/
theorem follows_performAll (samples : List Sample) (s : Session) (hs : s.Equipped binding filter)
    (hdirectory : directory.Slashless s.store) (hfollows : s.Follows serial id binding c samples)
    (operations : List Operation) (hspare : AllSpare directory settings serial operations s)
    (heffort : (s.performAll directory settings operations).effort < Number.maxWord) :
    (s.performAll directory settings operations).Follows serial id binding c
        (samples ++ operations.flatMap (Operation.heard binding.target.tenantId)) ∧
      Tells binding filter c samples (operations.flatMap (Operation.heard binding.target.tenantId))
        ((turns settings directory operations s).filter fun turn => turn.serial = serial) := by
  induction operations generalizing samples s with
  | nil =>
    rw [List.flatMap_nil, List.append_nil]
    refine ⟨hfollows, ?_, fun _ h => absurd h List.not_mem_nil⟩
    cases c.spent binding.action.transient [] samples <;> rfl
  | cons operation rest ih =>
    have hfirst := Nat.lt_of_le_of_lt
      (effort_performAll directory settings (s.perform directory settings operation) rest) heffort
    rcases follows_perform directory settings serial id binding filter c samples s hs hdirectory
      hfollows operation hspare.1 hfirst with ⟨hafter, htold⟩
    rcases equipped_perform directory settings serial binding filter s hs hdirectory operation
      hspare.1 hfirst with ⟨hequipped, hdirectory'⟩
    rcases ih _ _ hequipped hdirectory' hafter hspare.2 heffort with ⟨hlast, htold'⟩
    rw [List.flatMap_cons, ← List.append_assoc]
    refine ⟨hlast, ?_, ?_⟩
    -- Whether the first part has spent the action decides if the rest is heard at all.
    · rw [turns, List.filter_append, List.map_append, htold.fired, htold'.fired, c.spent_append,
        List.nil_append, c.firings_append]
      cases c.spent binding.action.transient [] samples with
      | true => rfl
      | false =>
        rw [Bool.false_or]
        rfl
    · rw [turns, List.filter_append]
      intro turn hturn
      rcases List.mem_append.mp hturn with hturn | hturn
      · exact htold.taken turn hturn
      · exact htold'.taken turn hturn

end Operations

end Session

end StoragePolicy
