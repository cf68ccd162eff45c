import StoragePolicy.Monitor.Table
import StoragePolicy.Proofs.Store.View

/-!
# The three tables of monitors

Tasks, live ids and observers are kept in three tables that change in separate steps. Between the
operations of the engine they agree: a live id has a task that was not told to stop, a task that was
not told to stop is the one of its live id, and the observers are exactly the live ids, each once
and under the tenant of its task.

What a monitor reads changes its queue and its state, never what it was launched as. So the tables
are compared here by what tasks were launched as.

## Main definitions

* `MonitorTask.core`: A task as it was launched.
* `MonitorTable.Agrees`: Tables that differ in what monitors have read only.
* `MonitorTable.Consistent`: The three tables agree.
* `MonitorTable.haltAll`: Stops the tasks of some handles and detaches them.
* `MonitorTable.without`, `MonitorTable.emptied`: The tables without one monitor and without any.

## Theorems

* `consistent_started`: Starting a monitor keeps the tables consistent.
* `consistent_haltAll`: So does taking ids off the live ones and stopping their tasks.
* `consistent_without`, `consistent_emptied`: So does stopping one monitor or all.
* `agrees_deliver`: A sample changes nothing but what monitors have to read.
-/

namespace StoragePolicy

/-- A task as it was launched, up to whether it was told to stop: with the kind and the condition of
    its monitor, but without what the monitor has read. -/
def MonitorTask.core (task : MonitorTask) : MonitorTask :=
  { handle := task.handle
    binding := task.binding
    monitor := { kind := task.monitor.kind, condition := task.monitor.condition }
    halted := task.halted }

namespace MonitorTable

/-- A task as it was launched, by its serial number. -/
def core? (t : MonitorTable) (serial : Nat) : Option MonitorTask :=
  (t.tasks.get? serial).map MonitorTask.core

/-- Tables that differ in nothing but what monitors have read and have to read. -/
structure Agrees (t u : MonitorTable) : Prop where
  core : ∀ serial, u.core? serial = t.core? serial
  live : u.live = t.live
  fanout : u.fanout = t.fanout
  nextSerial : u.nextSerial = t.nextSerial

/-- A task is launched under its own serial number, with the kind and the target of its binding. -/
structure Launched (task : MonitorTask) (serial : Nat) : Prop where
  serial : task.handle.serial = serial
  handleKind : task.handle.kind = .ofAction task.binding.action
  target : task.handle.target = task.binding.target
  monitorKind : task.monitor.kind = task.handle.kind

/-- The three tables agree. -/
structure Consistent (t : MonitorTable) : Prop where
  launched : ∀ serial task, t.core? serial = some task →
    serial < t.nextSerial ∧ Launched task serial
  running : ∀ serial task, t.core? serial = some task → task.halted = false →
    t.live.get? task.handle.policyId = some serial
  live : ∀ id serial, t.live.get? id = some serial →
    ∃ task, t.core? serial = some task ∧ task.halted = false ∧ task.handle.policyId = id
  observers : ∀ tenantId id serial, (id, serial) ∈ t.fanout.observers tenantId ↔
    t.live.get? id = some serial ∧
      ∃ task, t.core? serial = some task ∧ task.handle.target.tenantId = tenantId
  once : ∀ tenantId, ((t.fanout.observers tenantId).map Prod.fst).Nodup

/-- Stops the tasks of some handles and detaches them from their tenants. -/
def haltAll (t : MonitorTable) (handles : List MonitorHandle) : MonitorTable :=
  handles.foldl
    (fun t h => (t.halt h.serial).unsubscribe h.target.tenantId h.policyId) t

theorem agrees_refl (t : MonitorTable) : t.Agrees t := ⟨fun _ => rfl, rfl, rfl, rfl⟩

theorem agrees_trans (t u v : MonitorTable) (h : t.Agrees u) (h' : u.Agrees v) : t.Agrees v where
  core := fun serial => (h'.core serial).trans (h.core serial)
  live := h'.live.trans h.live
  fanout := h'.fanout.trans h.fanout
  nextSerial := h'.nextSerial.trans h.nextSerial

theorem consistent_of_agrees (t u : MonitorTable) (h : t.Agrees u) (ht : t.Consistent) :
    u.Consistent where
  launched := by
    intro serial task htask
    rw [h.core] at htask
    rw [h.nextSerial]
    exact ht.launched serial task htask
  running := by
    intro serial task htask hhalted
    rw [h.core] at htask
    rw [h.live]
    exact ht.running serial task htask hhalted
  live := by
    intro id serial hid
    rw [h.live] at hid
    simp only [h.core]
    exact ht.live id serial hid
  observers := by
    intro tenantId id serial
    simp only [h.fanout, h.live, h.core]
    exact ht.observers tenantId id serial
  once := by
    intro tenantId
    rw [h.fanout]
    exact ht.once tenantId

/-- Without monitors the tables are consistent. -/
theorem consistent_empty : Consistent {} where
  launched := fun _ _ htask => nomatch htask
  running := fun _ _ htask => nomatch htask
  live := fun _ _ hlive => nomatch hlive
  observers := by
    intro tenantId id serial
    constructor
    · intro hmem
      exact absurd hmem List.not_mem_nil
    · rintro ⟨hlive, -⟩
      exact nomatch hlive
  once := fun _ => List.nodup_nil

theorem isLive_iff (t : MonitorTable) (id : Nat) :
    t.isLive id = true ↔ ∃ serial, t.live.get? id = some serial := by
  rw [isLive, Dict.contains_iff]

theorem isLive_eq_false_iff (t : MonitorTable) (id : Nat) :
    t.isLive id = false ↔ t.live.get? id = none := by
  rw [isLive, Dict.contains, ← Option.not_isSome_iff_eq_none, Bool.not_eq_true]

theorem handle?_of_core? (t : MonitorTable) (serial : Nat) (task : MonitorTask)
    (h : t.core? serial = some task) : t.handle? serial = some task.handle := by
  rw [core?, Option.map_eq_some_iff] at h
  rcases h with ⟨task', htask, rfl⟩
  rw [handle?, htask]
  rfl

/-- Of two running monitors of one policy there is one. -/
theorem serial_unique (t : MonitorTable) (h : t.Consistent) (serial other : Nat)
    (task task' : MonitorTask) (htask : t.core? serial = some task)
    (htask' : t.core? other = some task') (hhalted : task.halted = false)
    (hhalted' : task'.halted = false) (hid : task.handle.policyId = task'.handle.policyId) :
    serial = other := by
  have hserial := h.running serial task htask hhalted
  have hother := h.running other task' htask' hhalted'
  rw [hid, hother] at hserial
  exact (Option.some.inj hserial).symm

/-! ### Starting a monitor -/

/-- The task that is launched for a policy. -/
def newTask (t : MonitorTable) (id : Nat) (condition : Condition) (binding : MonitorBinding) :
    MonitorTask :=
  { handle := { serial := t.nextSerial, policyId := id, kind := .ofAction binding.action,
                target := binding.target }
    binding
    monitor := { kind := .ofAction binding.action, condition } }

section Launch

variable (t : MonitorTable) (id : Nat) (condition : Condition) (binding : MonitorBinding)

/-- The tables after a launch. -/
def started : MonitorTable :=
  { t with
    tasks := t.tasks.insert t.nextSerial (t.newTask id condition binding)
    live := t.live.insert id t.nextSerial
    fanout := t.fanout.attach binding.target.tenantId id t.nextSerial
    nextSerial := t.nextSerial + 1 }

theorem launch_of_not_isLive (h : t.isLive id = false) : t.launch id condition binding =
    (some (t.newTask id condition binding).handle, t.started id condition binding) := by
  rw [launch, h, if_neg (by simp)]
  rfl

theorem core?_started (serial : Nat) : (t.started id condition binding).core? serial =
    if serial = t.nextSerial then some (t.newTask id condition binding) else t.core? serial := by
  rw [core?, started, Dict.get?_insert]
  by_cases h : serial = t.nextSerial
  · rw [if_pos h, if_pos h]
    rfl
  · rw [if_neg h, if_neg h, core?]

theorem live_started (other : Nat) : (t.started id condition binding).live.get? other =
    if other = id then some t.nextSerial else t.live.get? other := by
  rw [started, Dict.get?_insert]

/-- What is live after a policy has been started is that one, or was live before. -/
theorem isLive_started (other : Nat) (h : (t.started id condition binding).isLive other = true) :
    other = id ∨ t.isLive other = true := by
  rcases (isLive_iff _ other).mp h with ⟨serial, hserial⟩
  rw [live_started] at hserial
  split at hserial
  · rename_i hother
    exact Or.inl hother
  · exact Or.inr ((isLive_iff t other).mpr ⟨serial, hserial⟩)

theorem observers_started (tenantId : String) :
    (t.started id condition binding).fanout.observers tenantId =
      if tenantId = binding.target.tenantId then
        t.fanout.observers binding.target.tenantId ++ [(id, t.nextSerial)]
      else t.fanout.observers tenantId :=
  Fanout.observers_attach _ _ _ _ _

theorem mem_observers_started (tenantId : String) (other serial : Nat) :
    (other, serial) ∈ (t.started id condition binding).fanout.observers tenantId ↔
      (other, serial) ∈ t.fanout.observers tenantId ∨
        tenantId = binding.target.tenantId ∧ other = id ∧ serial = t.nextSerial := by
  rw [observers_started]
  by_cases htenant : tenantId = binding.target.tenantId
  · rw [if_pos htenant, List.mem_append, List.mem_singleton, Prod.mk.injEq, ← htenant,
      and_iff_right rfl]
  · rw [if_neg htenant]
    simp [htenant]

theorem ne_of_not_isLive (hlive : t.isLive id = false) (other serial : Nat)
    (hother : t.live.get? other = some serial) : other ≠ id := by
  rintro rfl
  rw [(isLive_eq_false_iff t other).mp hlive] at hother
  exact nomatch hother

/-- What is live is another policy and another task than those of a launch. -/
theorem other_of_live (ht : t.Consistent) (hlive : t.isLive id = false) (other serial : Nat)
    (hother : t.live.get? other = some serial) : other ≠ id ∧ serial ≠ t.nextSerial := by
  refine ⟨ne_of_not_isLive t id hlive other serial hother, ?_⟩
  rcases ht.live other serial hother with ⟨task, htask, -, -⟩
  have hlt := (ht.launched serial task htask).1
  omega

/-- The observers after a launch are those that were there, and the new task. -/
theorem observers_iff_started (ht : t.Consistent) (hlive : t.isLive id = false)
    (tenantId : String) (other serial : Nat) :
    (other, serial) ∈ (t.started id condition binding).fanout.observers tenantId ↔
      (t.started id condition binding).live.get? other = some serial ∧
        ∃ task, (t.started id condition binding).core? serial = some task ∧
          task.handle.target.tenantId = tenantId := by
  rw [mem_observers_started, live_started, core?_started, ht.observers]
  have hnone := (isLive_eq_false_iff t id).mp hlive
  by_cases hid : other = id
  · subst hid
    rw [if_pos rfl, hnone]
    constructor
    · rintro (⟨hother, -⟩ | ⟨htenant, -, rfl⟩)
      · exact nomatch hother
      · exact ⟨rfl, _, if_pos rfl, htenant.symm⟩
    · rintro ⟨heq, task, htask, htarget⟩
      cases heq
      rw [if_pos rfl] at htask
      cases htask
      exact Or.inr ⟨htarget.symm, rfl, rfl⟩
  · rw [if_neg hid]
    -- The next serial number belongs to no id that has been live.
    constructor
    · rintro (⟨hother, htask⟩ | ⟨-, heq, -⟩)
      · rw [if_neg (other_of_live t id ht hlive other serial hother).2]
        exact ⟨hother, htask⟩
      · exact absurd heq hid
    · rintro ⟨hother, htask⟩
      rw [if_neg (other_of_live t id ht hlive other serial hother).2] at htask
      exact Or.inl ⟨hother, htask⟩

theorem once_started (ht : t.Consistent) (hlive : t.isLive id = false) (tenantId : String) :
    (((t.started id condition binding).fanout.observers tenantId).map Prod.fst).Nodup := by
  rw [observers_started]
  split
  · rw [List.map_append, List.nodup_append]
    refine ⟨ht.once _, by simp, ?_⟩
    intro a ha b hb heq
    subst heq
    rcases List.mem_map.mp ha with ⟨⟨other, serial⟩, hmem, rfl⟩
    rw [ht.observers] at hmem
    rw [List.map_singleton, List.mem_singleton] at hb
    exact (other_of_live t id ht hlive other serial hmem.1).1 hb
  · exact ht.once tenantId

/-- Starting a monitor keeps the tables consistent. -/
theorem consistent_started (ht : t.Consistent) (hlive : t.isLive id = false) :
    (t.started id condition binding).Consistent := by
  -- No other id loses its task, since none has the next serial number.
  have hold := other_of_live t id ht hlive
  refine ⟨?_, ?_, ?_, observers_iff_started t id condition binding ht hlive,
    once_started t id condition binding ht hlive⟩
  · intro serial task htask
    have hnext : (t.started id condition binding).nextSerial = t.nextSerial + 1 := rfl
    rw [core?_started] at htask
    rw [hnext]
    by_cases hserial : serial = t.nextSerial
    · rw [if_pos hserial] at htask
      cases htask
      exact ⟨by omega, ⟨hserial.symm, rfl, rfl, rfl⟩⟩
    · rw [if_neg hserial] at htask
      have hspec := ht.launched serial task htask
      exact ⟨by omega, hspec.2⟩
  · intro serial task htask hhalted
    rw [core?_started] at htask
    rw [live_started]
    by_cases hserial : serial = t.nextSerial
    · rw [if_pos hserial] at htask
      cases htask
      have hid : (t.newTask id condition binding).handle.policyId = id := rfl
      rw [if_pos hid, hserial]
    · rw [if_neg hserial] at htask
      have hrunning := ht.running serial task htask hhalted
      rw [if_neg (hold _ _ hrunning).1, hrunning]
  · intro other serial hother
    rw [live_started] at hother
    simp only [core?_started]
    by_cases hid : other = id
    · rw [if_pos hid] at hother
      cases hother
      exact ⟨_, if_pos rfl, rfl, hid.symm⟩
    · rw [if_neg hid] at hother
      rw [if_neg (hold other serial hother).2]
      exact ht.live other serial hother

end Launch

/-! ### Stopping monitors -/

theorem core?_halt (t : MonitorTable) (serial other : Nat) :
    (t.halt serial).core? other = if other = serial then
      (t.core? other).map fun task => { task with halted := true } else t.core? other := by
  rw [core?, halt, Dict.get?_adjust]
  by_cases h : other = serial
  · rw [if_pos h, if_pos h, core?, ← h]
    cases t.tasks.get? other <;> rfl
  · rw [if_neg h, if_neg h, core?]

section HaltAll

variable (t : MonitorTable) (handles : List MonitorHandle)

theorem haltAll_cons (h : MonitorHandle) (rest : List MonitorHandle) :
    t.haltAll (h :: rest) =
      ((t.halt h.serial).unsubscribe h.target.tenantId h.policyId).haltAll rest := rfl

theorem live_haltAll : (t.haltAll handles).live = t.live := by
  induction handles generalizing t with
  | nil => rfl
  | cons h rest ih => rw [haltAll_cons, ih]; rfl

theorem nextSerial_haltAll : (t.haltAll handles).nextSerial = t.nextSerial := by
  induction handles generalizing t with
  | nil => rfl
  | cons h rest ih => rw [haltAll_cons, ih]; rfl

theorem core?_haltAll (serial : Nat) : (t.haltAll handles).core? serial =
    if serial ∈ handles.map MonitorHandle.serial then
      (t.core? serial).map fun task => { task with halted := true } else t.core? serial := by
  induction handles generalizing t with
  | nil => rfl
  | cons h rest ih =>
    have hunsubscribe : ∀ u : MonitorTable,
        (u.unsubscribe h.target.tenantId h.policyId).core? serial = u.core? serial := fun _ => rfl
    rw [haltAll_cons, ih, hunsubscribe, core?_halt, List.map_cons]
    by_cases hh : serial = h.serial
    · by_cases hrest : serial ∈ rest.map MonitorHandle.serial
      · rw [if_pos hrest, if_pos hh, if_pos (List.mem_cons_of_mem _ hrest), Option.map_map]
        rfl
      · rw [if_neg hrest, if_pos hh, if_pos (by rw [hh]; exact List.mem_cons_self)]
    · by_cases hrest : serial ∈ rest.map MonitorHandle.serial
      · rw [if_pos hrest, if_neg hh, if_pos (List.mem_cons_of_mem _ hrest)]
      · rw [if_neg hrest, if_neg hh, if_neg (by simp [hh, hrest])]

/-- A task was there before others were stopped, and is what it was, but that it may have been told
    to stop. -/
theorem core?_of_haltAll (serial : Nat) (task : MonitorTask)
    (h : (t.haltAll handles).core? serial = some task) :
    ∃ old halted, t.core? serial = some old ∧ task = { old with halted } := by
  rw [core?_haltAll] at h
  split at h
  · rw [Option.map_eq_some_iff] at h
    rcases h with ⟨old, hold, rfl⟩
    exact ⟨old, true, hold, rfl⟩
  · exact ⟨task, task.halted, h, rfl⟩

theorem observers_haltAll (tenantId : String) : (t.haltAll handles).fanout.observers tenantId =
    (t.fanout.observers tenantId).filter fun o =>
      handles.all fun h => !decide (h.target.tenantId = tenantId ∧ h.policyId = o.1) := by
  induction handles generalizing t with
  | nil => exact (List.filter_eq_self.mpr fun _ _ => rfl).symm
  | cons h rest ih =>
    have hdetach : ((t.halt h.serial).unsubscribe h.target.tenantId h.policyId).fanout.observers
        tenantId = if tenantId = h.target.tenantId then
          (t.fanout.observers h.target.tenantId).filter fun o => !decide (o.1 = h.policyId)
        else t.fanout.observers tenantId := Fanout.observers_detach _ _ _ _
    rw [haltAll_cons, ih, hdetach]
    by_cases htenant : tenantId = h.target.tenantId
    · rw [if_pos htenant, List.filter_filter, ← htenant]
      refine List.filter_congr fun o _ => ?_
      rw [List.all_cons, Bool.and_comm]
      simp [htenant, eq_comm]
    · rw [if_neg htenant]
      refine List.filter_congr fun o _ => ?_
      rw [List.all_cons]
      simp [Ne.symm htenant]

section Taken

variable (u : MonitorTable) (ht : t.Consistent) (hu : u = { t with live := u.live })
  (hhandles : ∀ h ∈ handles, t.live.get? h.policyId = some h.serial ∧
    ∃ task, t.core? h.serial = some task ∧ task.handle = h)
  (hlive : ∀ id serial, u.live.get? id = some serial ↔
    t.live.get? id = some serial ∧ ∀ h ∈ handles, h.policyId ≠ id)

include ht hhandles in
/-- A live id that is not taken off has a task that is not stopped. -/
theorem not_mem_of_not_taken (id serial : Nat) (hid : t.live.get? id = some serial)
    (hnone : ∀ h ∈ handles, h.policyId ≠ id) : serial ∉ handles.map MonitorHandle.serial := by
  intro hmem
  rcases List.mem_map.mp hmem with ⟨h, hh, rfl⟩
  rcases ht.live id h.serial hid with ⟨task, htask, -, hpolicy⟩
  rcases (hhandles h hh).2 with ⟨task', htask', hhandle⟩
  rw [htask] at htask'
  cases htask'
  rw [hhandle] at hpolicy
  exact hnone h hh hpolicy

include hu in
theorem core?_haltAll_taken (serial : Nat) : (u.haltAll handles).core? serial =
    if serial ∈ handles.map MonitorHandle.serial then
      (t.core? serial).map fun task => { task with halted := true } else t.core? serial := by
  have hucore : u.core? serial = t.core? serial := by
    rw [hu]
    rfl
  rw [core?_haltAll, hucore]

include ht hu hhandles hlive

/-- The observers that are left are the monitors that are still live. -/
theorem observers_iff_haltAll (tenantId : String) (id serial : Nat) :
    (id, serial) ∈ (u.haltAll handles).fanout.observers tenantId ↔
      (u.haltAll handles).live.get? id = some serial ∧
        ∃ task, (u.haltAll handles).core? serial = some task ∧
          task.handle.target.tenantId = tenantId := by
  have hfanout : u.fanout = t.fanout := by rw [hu]
  have hkept := not_mem_of_not_taken t handles ht hhandles id serial
  rw [observers_haltAll, hfanout, List.mem_filter, ht.observers, live_haltAll, hlive]
  simp only [List.all_eq_true, Bool.not_eq_true', decide_eq_false_iff_not, not_and]
  constructor
  · rintro ⟨⟨hid, task, htask, htarget⟩, hnone⟩
    -- One that is taken off would observe the tenant that its handle names, which is this one.
    have hpolicy : ∀ h ∈ handles, h.policyId ≠ id := by
      intro h hh heq
      rcases hhandles h hh with ⟨hserial, task', htask', hhandle⟩
      rw [heq, hid] at hserial
      cases hserial
      rw [htask] at htask'
      cases htask'
      rw [hhandle] at htarget
      exact hnone h hh htarget heq
    refine ⟨⟨hid, hpolicy⟩, task, ?_, htarget⟩
    rw [core?_haltAll_taken t handles u hu, if_neg (hkept hid hpolicy), htask]
  · rintro ⟨⟨hid, hpolicy⟩, task, htask, htarget⟩
    rw [core?_haltAll_taken t handles u hu, if_neg (hkept hid hpolicy)] at htask
    exact ⟨⟨hid, task, htask, htarget⟩, fun h hh _ => hpolicy h hh⟩

/-- Taking ids off the live ones and stopping exactly their tasks keeps the tables consistent. -/
theorem consistent_haltAll : (u.haltAll handles).Consistent := by
  have hfanout : u.fanout = t.fanout := by rw [hu]
  have hnext : u.nextSerial = t.nextSerial := by rw [hu]
  -- The tasks that are halted are those whose ids have been taken off.
  have hcore := core?_haltAll_taken t handles u hu
  refine ⟨?_, ?_, ?_, observers_iff_haltAll t handles u ht hu hhandles hlive, ?_⟩
  · intro serial task htask
    rw [nextSerial_haltAll, hnext]
    rw [hcore] at htask
    by_cases hmem : serial ∈ handles.map MonitorHandle.serial
    · rw [if_pos hmem, Option.map_eq_some_iff] at htask
      rcases htask with ⟨task', htask', rfl⟩
      have hspec := ht.launched serial task' htask'
      exact ⟨hspec.1, ⟨hspec.2.serial, hspec.2.handleKind, hspec.2.target, hspec.2.monitorKind⟩⟩
    · rw [if_neg hmem] at htask
      exact ht.launched serial task htask
  · intro serial task htask hhalted
    rw [live_haltAll, hlive]
    rw [hcore] at htask
    by_cases hmem : serial ∈ handles.map MonitorHandle.serial
    · rw [if_pos hmem, Option.map_eq_some_iff] at htask
      rcases htask with ⟨task', -, rfl⟩
      exact absurd hhalted (by simp)
    · rw [if_neg hmem] at htask
      have hrunning := ht.running serial task htask hhalted
      refine ⟨hrunning, fun h hh hpolicy => ?_⟩
      have hserial := (hhandles h hh).1
      rw [hpolicy, hrunning] at hserial
      cases hserial
      exact hmem (List.mem_map_of_mem hh)
  · intro id serial hid
    rw [live_haltAll, hlive] at hid
    rcases ht.live id serial hid.1 with ⟨task, htask, hhalted, hpolicy⟩
    refine ⟨task, ?_, hhalted, hpolicy⟩
    rw [hcore, if_neg (not_mem_of_not_taken t handles ht hhandles id serial hid.1 hid.2), htask]
  · intro tenantId
    rw [observers_haltAll, hfanout]
    exact (ht.once tenantId).sublist ((List.filter_sublist).map Prod.fst)

end Taken

end HaltAll

/-- The tables after the monitor of a policy has been stopped, if there was one. -/
def without (t : MonitorTable) (id : Nat) : MonitorTable :=
  (t.take id).2.haltAll (t.take id).1.toList

/-- The tables after all monitors have been stopped. -/
def emptied (t : MonitorTable) : MonitorTable := t.drain.2.haltAll t.drain.1

section Without

variable (t : MonitorTable) (id : Nat)

theorem take_of_not_isLive (h : t.isLive id = false) : t.take id = (none, t) := by
  simp only [take, (isLive_eq_false_iff t id).mp h]

theorem without_of_not_isLive (h : t.isLive id = false) : t.without id = t := by
  rw [without, take_of_not_isLive t id h]
  rfl

/-- A live policy is taken off together with the handle of its task. -/
theorem take_of_live (ht : t.Consistent) (serial : Nat) (h : t.live.get? id = some serial) :
    ∃ task, t.core? serial = some task ∧ task.handle.serial = serial ∧
      task.handle.policyId = id ∧
      t.take id = (some task.handle, { t with live := t.live.erase id }) := by
  rcases ht.live id serial h with ⟨task, htask, -, hid⟩
  refine ⟨task, htask, (ht.launched serial task htask).2.serial, hid, ?_⟩
  simp only [take, h, handle?_of_core? t serial task htask]

theorem live_take (other : Nat) :
    (t.take id).2.live.get? other = if other = id then none else t.live.get? other := by
  rw [take]
  cases h : t.live.get? id with
  | some serial => exact Dict.get?_erase t.live id other
  | none =>
    by_cases hid : other = id
    · rw [if_pos hid, hid, h]
    · rw [if_neg hid]

/-- What is live after a policy has been taken off is another one, and was live before. -/
theorem isLive_take (other : Nat) (h : (t.take id).2.isLive other = true) :
    other ≠ id ∧ t.isLive other = true := by
  rcases (isLive_iff _ other).mp h with ⟨serial, hserial⟩
  rw [live_take] at hserial
  split at hserial
  · cases hserial
  · rename_i hother
    exact ⟨hother, (isLive_iff t other).mpr ⟨serial, hserial⟩⟩

theorem live_without (other : Nat) :
    (t.without id).live.get? other = if other = id then none else t.live.get? other := by
  rw [without, live_haltAll, live_take]

theorem nextSerial_without : (t.without id).nextSerial = t.nextSerial := by
  rw [without, nextSerial_haltAll, take]
  split <;> rfl

/-- Only the task of the policy is told to stop. -/
theorem core?_without (ht : t.Consistent) (serial : Nat) (h : t.live.get? id ≠ some serial) :
    (t.without id).core? serial = t.core? serial := by
  cases hlive : t.live.get? id with
  | none => rw [without_of_not_isLive t id ((isLive_eq_false_iff t id).mpr hlive)]
  | some own =>
    rcases take_of_live t id ht own hlive with ⟨task, -, hserial, -, htake⟩
    rw [without, htake, core?_haltAll, if_neg]
    · rfl
    · simp only [Option.toList_some, List.map_cons, List.map_nil, List.mem_singleton, hserial]
      rintro rfl
      exact h hlive

theorem core?_take (serial : Nat) : (t.take id).2.core? serial = t.core? serial := by
  rw [take]
  split <;> rfl

theorem core?_of_without (serial : Nat) (task : MonitorTask)
    (h : (t.without id).core? serial = some task) :
    ∃ old halted, t.core? serial = some old ∧ task = { old with halted } := by
  rw [← core?_take t id]
  exact core?_of_haltAll _ _ serial task h

/-- Stopping the monitor of a policy keeps the tables consistent. -/
theorem consistent_without (ht : t.Consistent) : (t.without id).Consistent := by
  cases hlive : t.live.get? id with
  | none =>
    rw [without_of_not_isLive t id ((isLive_eq_false_iff t id).mpr hlive)]
    exact ht
  | some serial =>
    rcases take_of_live t id ht serial hlive with ⟨task, htask, hserial, hid, htake⟩
    rw [without, htake]
    refine consistent_haltAll t _ _ ht rfl ?_ ?_
    · intro h hh
      rw [Option.toList_some, List.mem_singleton] at hh
      subst hh
      rw [hid, hserial]
      exact ⟨hlive, task, htask, rfl⟩
    · intro other otherSerial
      rw [Dict.get?_erase]
      simp only [Option.toList_some, List.mem_singleton, forall_eq, hid]
      by_cases hother : other = id
      · simp [hother]
      · simp [hother, Ne.symm hother]

theorem live_emptied (other : Nat) : t.emptied.live.get? other = none := by
  rw [emptied, live_haltAll]
  rfl

theorem core?_of_emptied (serial : Nat) (task : MonitorTask)
    (h : t.emptied.core? serial = some task) :
    ∃ old halted, t.core? serial = some old ∧ task = { old with halted } :=
  core?_of_haltAll t.drain.2 _ serial task h

theorem nextSerial_emptied : t.emptied.nextSerial = t.nextSerial := by
  rw [emptied, nextSerial_haltAll]
  rfl

/-- Stopping all monitors keeps the tables consistent. -/
theorem consistent_emptied (ht : t.Consistent) : t.emptied.Consistent := by
  refine consistent_haltAll t _ _ ht rfl ?_ ?_
  · intro h hh
    rcases List.mem_filterMap.mp hh with ⟨serial, hserial, hhandle⟩
    rcases List.mem_map.mp hserial with ⟨⟨policy, serial'⟩, hmem, rfl⟩
    rw [Dict.mem_entries_iff] at hmem
    rcases ht.live policy serial' hmem with ⟨task, htask, -, hid⟩
    rw [handle?_of_core? t _ task htask] at hhandle
    cases hhandle
    rw [hid, (ht.launched _ task htask).2.serial]
    exact ⟨hmem, task, htask, rfl⟩
  · intro other serial
    constructor
    · intro h
      exact nomatch h
    · rintro ⟨hlive, hnone⟩
      rcases ht.live other serial hlive with ⟨task, htask, -, hid⟩
      refine absurd hid (hnone task.handle ?_)
      refine List.mem_filterMap.mpr ⟨serial, ?_, handle?_of_core? t serial task htask⟩
      exact List.mem_map.mpr ⟨(other, serial), (Dict.mem_entries_iff _ _ _).mpr hlive, rfl⟩

end Without

/-! ### Samples -/

theorem agrees_enqueue (t : MonitorTable) (sample : Sample) (serial : Nat) :
    t.Agrees (enqueue sample serial t).2 := by
  rw [enqueue]
  cases htask : t.tasks.get? serial with
  | none => exact agrees_refl t
  | some task =>
    dsimp only
    split
    · exact agrees_refl t
    · split
      · exact agrees_refl t
      · refine ⟨fun other => ?_, rfl, rfl, rfl⟩
        rw [core?, core?, Dict.get?_insert]
        by_cases hother : other = serial
        · rw [if_pos hother, hother, htask]
          rfl
        · rw [if_neg hother]

theorem agrees_deliverTo (sample : Sample) (observers : List (Nat × Nat)) (t : MonitorTable) :
    t.Agrees (Fanout.deliverTo (enqueue sample) observers t).2 := by
  induction observers generalizing t with
  | nil => exact agrees_refl t
  | cons o rest ih =>
    rcases o with ⟨id, serial⟩
    exact agrees_trans _ _ _ (agrees_enqueue t sample serial) (ih _)

/-- A sample changes nothing but what monitors have to read. -/
theorem agrees_deliver (t : MonitorTable) (sample : Sample) : t.Agrees (t.deliver sample).2 :=
  agrees_deliverTo sample _ t

end MonitorTable

end StoragePolicy
