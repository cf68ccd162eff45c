import StoragePolicy.Proofs.Monitor.Table

/-!
# What one task has to read

The tables of monitors hold all tasks, and here one of them is followed. Starting and stopping other
monitors leaves it as it is. A sample of the tenant of its target is queued at it once, since it is
observed once, and no other sample is. Whether a task is among those that have samples tells whether
its queue is empty, and it is among them at most once.

A task that was told to stop is not observed any more, so that nothing is queued at it.

## Main definitions

* `MonitorTable.deliverAll`: Queues samples one after the other.
* `MonitorTable.Waiting`: A task that runs, with what it has to read.
* `MonitorTable.Halted`: A task that was told to stop and has nothing to read.

## Theorems

* `tasks_started`, `tasks_without`: Starting and stopping other monitors does not concern a task.
* `waiting_deliver`, `waiting_deliverAll`: A task gets the samples of its tenant.
* `halted_deliver`, `halted_deliverAll`: A task that was told to stop gets none.
-/

namespace StoragePolicy

namespace MonitorTable

/-! ### Other monitors -/

section Others

variable (t : MonitorTable) (serial : Nat)

theorem tasks_started (id : Nat) (condition : Condition) (binding : MonitorBinding)
    (h : serial ≠ t.nextSerial) :
    (t.started id condition binding).tasks.get? serial = t.tasks.get? serial :=
  (Dict.get?_insert _ _ _ _).trans (if_neg h)

theorem tasks_haltAll (handles : List MonitorHandle)
    (h : serial ∉ handles.map MonitorHandle.serial) :
    (t.haltAll handles).tasks.get? serial = t.tasks.get? serial := by
  induction handles generalizing t with
  | nil => rfl
  | cons handle rest ih =>
    rw [List.map_cons, List.mem_cons, not_or] at h
    rw [haltAll_cons, ih _ h.2]
    exact (Dict.get?_adjust _ _ _ _).trans (if_neg h.1)

theorem ready_haltAll (handles : List MonitorHandle) : (t.haltAll handles).ready = t.ready := by
  induction handles generalizing t with
  | nil => rfl
  | cons handle rest ih => rw [haltAll_cons, ih]; rfl

/-- Stopping a monitor concerns its own task alone. -/
theorem tasks_without (ht : t.Consistent) (id : Nat) (h : t.live.get? id ≠ some serial) :
    (t.without id).tasks.get? serial = t.tasks.get? serial := by
  cases hlive : t.live.get? id with
  | none => rw [without_of_not_isLive t id ((isLive_eq_false_iff t id).mpr hlive)]
  | some own =>
    rcases take_of_live t id ht own hlive with ⟨task, -, hserial, -, htake⟩
    rw [without, htake, tasks_haltAll]
    simp only [Option.toList_some, List.map_cons, List.map_nil, List.mem_singleton, hserial]
    rintro rfl
    exact h hlive

theorem ready_without (id : Nat) : (t.without id).ready = t.ready := by
  rw [without, ready_haltAll, take]
  split <;> rfl

/-- The task of a monitor that is stopped is told to stop. -/
theorem tasks_without_own (ht : t.Consistent) (id : Nat) (task : MonitorTask)
    (hlive : t.live.get? id = some serial) (htask : t.tasks.get? serial = some task) :
    (t.without id).tasks.get? serial = some { task with halted := true } := by
  rcases take_of_live t id ht serial hlive with ⟨core, -, hserial, -, htake⟩
  have hadjust : (t.without id).tasks.get? serial =
      (t.tasks.adjust core.handle.serial fun task => { task with halted := true }).get? serial := by
    rw [without, htake]
    rfl
  rw [hadjust, hserial, Dict.get?_adjust, if_pos rfl, htask]
  rfl

end Others

/-! ### Samples -/

/-- Queues samples one after the other. -/
def deliverAll (t : MonitorTable) (samples : List Sample) : MonitorTable :=
  samples.foldl (fun t sample => (t.deliver sample).2) t

section Enqueue

variable (t : MonitorTable) (sample : Sample) (serial : Nat)

theorem tasks_enqueue (other : Nat) (h : other ≠ serial) :
    (enqueue sample serial t).2.tasks.get? other = t.tasks.get? other := by
  rw [enqueue]
  split
  · rfl
  · split
    · rfl
    · split
      · rfl
      · exact (Dict.get?_insert _ _ _ _).trans (if_neg h)

theorem mem_ready_enqueue (other : Nat) (h : other ≠ serial) :
    other ∈ (enqueue sample serial t).2.ready ↔ other ∈ t.ready := by
  rw [enqueue]
  split
  · rfl
  · split
    · rfl
    · split
      · rfl
      · dsimp only
        split
        · rfl
        · simp [h]

theorem nodup_ready_enqueue (h : t.ready.Nodup) : (enqueue sample serial t).2.ready.Nodup := by
  rw [enqueue]
  split
  · exact h
  · split
    · exact h
    · split
      · exact h
      · dsimp only
        split
        · exact h
        · rename_i hmem
          rw [List.contains_eq_mem, decide_eq_true_eq] at hmem
          refine List.nodup_append.mpr ⟨h, by simp, ?_⟩
          rintro a ha b hb rfl
          exact hmem (List.mem_singleton.mp hb ▸ ha)

/-- A task that runs takes the sample. -/
theorem tasks_enqueue_own (task : MonitorTask) (htask : t.tasks.get? serial = some task)
    (hhalted : task.halted = false) (hended : task.ended = false) :
    (enqueue sample serial t).2.tasks.get? serial =
        some { task with queue := task.queue ++ [sample] } ∧
      serial ∈ (enqueue sample serial t).2.ready := by
  rw [enqueue, htask]
  dsimp only
  rw [hhalted, hended, if_neg (by simp), if_neg (by simp)]
  refine ⟨(Dict.get?_insert _ _ _ _).trans (if_pos rfl), ?_⟩
  dsimp only
  split
  · rename_i hmem
    rw [List.contains_eq_mem, decide_eq_true_eq] at hmem
    exact hmem
  · exact List.mem_append_right _ (List.mem_singleton_self serial)

end Enqueue

section DeliverTo

variable (sample : Sample)

theorem deliverTo_cons (id serial : Nat) (rest : List (Nat × Nat)) (t : MonitorTable) :
    (Fanout.deliverTo (enqueue sample) ((id, serial) :: rest) t).2 =
      (Fanout.deliverTo (enqueue sample) rest (enqueue sample serial t).2).2 := rfl

theorem nodup_ready_deliverTo (observers : List (Nat × Nat)) (t : MonitorTable)
    (h : t.ready.Nodup) : (Fanout.deliverTo (enqueue sample) observers t).2.ready.Nodup := by
  induction observers generalizing t with
  | nil => exact h
  | cons o rest ih => exact ih _ (nodup_ready_enqueue t sample o.2 h)

/-- A task that is not observed gets nothing. -/
theorem deliverTo_others (serial : Nat) (observers : List (Nat × Nat)) (t : MonitorTable)
    (h : ∀ id, (id, serial) ∉ observers) :
    (Fanout.deliverTo (enqueue sample) observers t).2.tasks.get? serial = t.tasks.get? serial ∧
      (serial ∈ (Fanout.deliverTo (enqueue sample) observers t).2.ready ↔ serial ∈ t.ready) := by
  induction observers generalizing t with
  | nil => exact ⟨rfl, Iff.rfl⟩
  | cons o rest ih =>
    rcases o with ⟨id, other⟩
    have hne : serial ≠ other := by
      rintro rfl
      exact h id List.mem_cons_self
    rcases ih (enqueue sample other t).2 fun own hmem => h own (List.mem_cons_of_mem _ hmem) with
      ⟨htasks, hready⟩
    rw [deliverTo_cons]
    exact ⟨htasks.trans (tasks_enqueue t sample other serial hne),
      hready.trans (mem_ready_enqueue t sample other serial hne)⟩

/-- A task that is observed once gets the sample once. -/
theorem deliverTo_own (id serial : Nat) (observers : List (Nat × Nat)) (t : MonitorTable)
    (hmem : (id, serial) ∈ observers) (hown : ∀ own, (own, serial) ∈ observers → own = id)
    (honce : (observers.map Prod.fst).Nodup) (task : MonitorTask)
    (htask : t.tasks.get? serial = some task) (hhalted : task.halted = false)
    (hended : task.ended = false) :
    (Fanout.deliverTo (enqueue sample) observers t).2.tasks.get? serial =
        some { task with queue := task.queue ++ [sample] } ∧
      serial ∈ (Fanout.deliverTo (enqueue sample) observers t).2.ready := by
  induction observers generalizing t with
  | nil => exact absurd hmem List.not_mem_nil
  | cons o rest ih =>
    rcases o with ⟨other, otherSerial⟩
    rw [List.map_cons, List.nodup_cons] at honce
    rw [deliverTo_cons]
    by_cases hserial : otherSerial = serial
    · subst hserial
      have hother := hown other List.mem_cons_self
      subst hother
      -- The task is not met again, since it is observed under one id only, and once.
      have hrest : ∀ own, (own, otherSerial) ∉ rest := by
        intro own hmem'
        have hsame := hown own (List.mem_cons_of_mem _ hmem')
        subst hsame
        exact honce.1 (List.mem_map_of_mem hmem')
      rcases tasks_enqueue_own t sample otherSerial task htask hhalted hended with ⟨htaken, hready⟩
      rcases deliverTo_others sample otherSerial rest (enqueue sample otherSerial t).2 hrest with
        ⟨htasks, hkept⟩
      exact ⟨htasks.trans htaken, hkept.mpr hready⟩
    · refine ih _ ?_ (fun own h => hown own (List.mem_cons_of_mem _ h)) honce.2 ?_
      · rcases List.mem_cons.mp hmem with heq | hmem
        · exact absurd (Prod.mk.inj heq).2.symm hserial
        · exact hmem
      · rw [tasks_enqueue t sample otherSerial serial (Ne.symm hserial), htask]

end DeliverTo

/-- A task that runs, with what it has to read: it is among those that have samples if it has
    any. -/
structure Waiting (t : MonitorTable) (serial : Nat) (task : MonitorTask) : Prop where
  stored : t.tasks.get? serial = some task
  halted : task.halted = false
  ended : task.ended = false
  ready : serial ∈ t.ready ↔ task.queue ≠ []
  once : t.ready.Nodup

/-- A task that was told to stop and has nothing to read. -/
structure Halted (t : MonitorTable) (serial : Nat) (task : MonitorTask) : Prop where
  stored : t.tasks.get? serial = some task
  halted : task.halted = true
  ready : serial ∉ t.ready

section Deliver

variable (t : MonitorTable) (ht : t.Consistent) (serial : Nat) (task : MonitorTask)

theorem core?_of_tasks (htask : t.tasks.get? serial = some task) :
    t.core? serial = some task.core := by
  rw [core?, htask]
  rfl

include ht

/-- A task that was told to stop is not live, and nobody observes it. -/
theorem unobserved_of_halted (htask : t.tasks.get? serial = some task)
    (hhalted : task.halted = true) : (∀ id, t.live.get? id ≠ some serial) ∧
      ∀ tenantId id, (id, serial) ∉ t.fanout.observers tenantId := by
  have hlive : ∀ id, t.live.get? id ≠ some serial := by
    intro id hid
    rcases ht.live id serial hid with ⟨core, hcore, hrunning, -⟩
    rw [core?_of_tasks t serial task htask] at hcore
    cases hcore
    rw [MonitorTask.core, hhalted] at hrunning
    exact nomatch hrunning
  exact ⟨hlive, fun tenantId id hmem => hlive id ((ht.observers tenantId id serial).mp hmem).1⟩

/-- A task that runs is the live one of its policy and of no other. -/
theorem live_iff_of_running (htask : t.tasks.get? serial = some task)
    (hhalted : task.halted = false) (id : Nat) :
    t.live.get? id = some serial ↔ id = task.handle.policyId := by
  have hcore := core?_of_tasks t serial task htask
  constructor
  · intro hid
    rcases ht.live id serial hid with ⟨core, hcore', -, hpolicy⟩
    rw [hcore] at hcore'
    cases hcore'
    exact hpolicy.symm
  · rintro rfl
    exact ht.running serial task.core hcore hhalted

/-- A task gets the samples of the tenant of its target. -/
theorem waiting_deliver (h : t.Waiting serial task) (sample : Sample) :
    (t.deliver sample).2.Waiting serial { task with
      queue := task.queue ++
        [sample].filter fun x => x.tenantId = task.binding.target.tenantId } := by
  have hcore := core?_of_tasks t serial task h.stored
  have htarget : task.handle.target = task.binding.target := (ht.launched serial _ hcore).2.target
  have honce := nodup_ready_deliverTo sample (t.fanout.observers sample.tenantId) t h.once
  -- The tenant of its target decides if the task is among the observers.
  by_cases htenant : sample.tenantId = task.binding.target.tenantId
  · have hmem : (task.handle.policyId, serial) ∈ t.fanout.observers sample.tenantId := by
      refine (ht.observers _ _ _).mpr ⟨?_, task.core, hcore, ?_⟩
      · exact (live_iff_of_running t ht serial task h.stored h.halted _).mpr rfl
      · rw [htenant, ← htarget]
        rfl
    rcases deliverTo_own sample task.handle.policyId serial _ t hmem (fun own hown =>
      (live_iff_of_running t ht serial task h.stored h.halted own).mp
        ((ht.observers _ _ _).mp hown).1) (ht.once _) task h.stored h.halted h.ended with
      ⟨htaken, hready⟩
    rw [List.filter_cons_of_pos (by simpa using htenant), List.filter_nil]
    exact ⟨htaken, h.halted, h.ended, by simp [deliver, Fanout.deliver, hready], honce⟩
  · have hnone : ∀ id, (id, serial) ∉ t.fanout.observers sample.tenantId := by
      intro id hmem
      rcases (ht.observers _ _ _).mp hmem with ⟨-, core, hcore', htenant'⟩
      rw [hcore] at hcore'
      cases hcore'
      exact htenant (by rw [← htarget]; exact htenant'.symm)
    rcases deliverTo_others sample serial _ t hnone with ⟨htasks, hready⟩
    rw [List.filter_cons_of_neg (by simpa using htenant), List.filter_nil, List.append_nil]
    exact ⟨htasks.trans h.stored, h.halted, h.ended, hready.trans h.ready, honce⟩

/-- A task that was told to stop gets nothing. -/
theorem halted_deliver (h : t.Halted serial task) (sample : Sample) :
    (t.deliver sample).2.Halted serial task := by
  rcases deliverTo_others sample serial _ t
    ((unobserved_of_halted t ht serial task h.stored h.halted).2 sample.tenantId) with
    ⟨htasks, hready⟩
  exact ⟨htasks.trans h.stored, h.halted, fun hmem => h.ready (hready.mp hmem)⟩

end Deliver

/-- A task gets the samples of the tenant of its target, in the order in which they come. -/
theorem waiting_deliverAll (t : MonitorTable) (ht : t.Consistent) (serial : Nat)
    (task : MonitorTask) (h : t.Waiting serial task) (samples : List Sample) :
    (t.deliverAll samples).Waiting serial { task with
      queue := task.queue ++
        samples.filter fun x => x.tenantId = task.binding.target.tenantId } := by
  induction samples generalizing t task with
  | nil =>
    rw [List.filter_nil, List.append_nil]
    exact h
  | cons sample rest ih =>
    have hafter := ih _ (consistent_of_agrees _ _ (agrees_deliver t sample) ht) _
      (waiting_deliver t ht serial task h sample)
    have hsplit : task.queue ++ (sample :: rest).filter
        (fun x => x.tenantId = task.binding.target.tenantId) =
        (task.queue ++ [sample].filter fun x => x.tenantId = task.binding.target.tenantId) ++
          rest.filter fun x => x.tenantId = task.binding.target.tenantId := by
      rw [List.append_assoc, ← List.filter_append, List.singleton_append]
    rw [hsplit]
    exact hafter

/-- A task that was told to stop gets none of them. -/
theorem halted_deliverAll (t : MonitorTable) (ht : t.Consistent) (serial : Nat)
    (task : MonitorTask) (h : t.Halted serial task) (samples : List Sample) :
    (t.deliverAll samples).Halted serial task := by
  induction samples generalizing t with
  | nil => exact h
  | cons sample rest ih =>
    exact ih _ (consistent_of_agrees _ _ (agrees_deliver t sample) ht)
      (halted_deliver t ht serial task h sample)

end MonitorTable

end StoragePolicy
