import StoragePolicy.Proofs.Engine.Stopping

/-!
# Samples and firings

A sample is queued at the monitors of its tenant, and these are run afterwards, one at a time. While
a monitor runs, its action goes to the pipelines and the storage side, and then its policy may
retire or its record be marked. Other monitors and other records are not concerned. A monitor may
have been stopped by then, and what it has read is put back into its task nevertheless: the task was
launched with the same condition, whatever has happened since.

## Main definitions

* `Session.Acts`: The deeds of a monitor that runs for a policy.
* `Session.Fires`: The deeds of monitors that run.
* `Session.Hears`: The deeds of samples that come in.
* `Session.unready`: The session in which the monitors that have samples begin to run.

## Theorems

* `works_turn`: What a monitor does with one sample.
* `core_of_path`: A task stays what it was launched as.
* `reaches_settle`: What all monitors do with what they have to read.
* `reaches_ingest`: What samples do.
-/

namespace StoragePolicy

open Registry

namespace Session

/-- The deeds of a monitor that runs for a policy. -/
def Acts (settings : Engine.Settings) (id : Nat) : Deed → Prop
  | .pass => True
  | .retire own => own = id ∧ settings.retirement = .markInactive
  | .remove own => own = id ∧ settings.retirement = .delete
  | .rest own => own = id ∧ settings.aliveAfterFire = false
  | _ => False

/-- The deeds of monitors that run. -/
def Fires (settings : Engine.Settings) : Deed → Prop
  | .pass | .read _ => True
  | .retire _ => settings.retirement = .markInactive
  | .remove _ => settings.retirement = .delete
  | .rest _ => settings.aliveAfterFire = false
  | _ => False

/-- The deeds of samples that come in. -/
def Hears : Deed → Prop
  | .hear _ => True
  | _ => False

theorem fires_of_acts (settings : Engine.Settings) (id : Nat) (deed : Deed)
    (h : Acts settings id deed) : Fires settings deed := by
  cases deed with
  | pass => trivial
  | retire own => exact h.2
  | remove own => exact h.2
  | rest own => exact h.2
  | _ => exact False.elim h

/-! ### What a monitor is -/

theorem observe_core (m : Monitor) (metric : String) (value : Float) :
    (m.observe metric value).2.kind = m.kind ∧
      (m.observe metric value).2.condition = m.condition := by
  unfold Monitor.observe
  split
  · exact ⟨rfl, rfl⟩
  · dsimp only
    split <;> exact ⟨rfl, rfl⟩

theorem conclude_core (m : Monitor) (dispatched : Bool) :
    (m.conclude dispatched).2.kind = m.kind ∧
      (m.conclude dispatched).2.condition = m.condition := by
  unfold Monitor.conclude
  split
  · exact ⟨rfl, rfl⟩
  · split <;> exact ⟨rfl, rfl⟩

theorem conclude_of_persistent (m : Monitor) (h : m.kind = .persistent) :
    m.conclude true = (.goOn, m) := by
  rw [Monitor.conclude, h]
  rfl

theorem conclude_of_transient (m : Monitor) (h : m.kind = .transient) :
    m.conclude true = (.retire, m.stop) := by
  rw [Monitor.conclude, h]
  rfl

/-- What is done on the way has no part in what a program ends in. -/
theorem run_when {α : Type} (s : Session) (b : Bool) (p : Program Engine.interface Unit)
    (a : α) : s.run (do
      if b then p
      pure a) = (a, if b then (s.run p).2 else s) := by
  cases b with
  | false => rfl
  | true =>
    simp only [if_true]
    rw [run_bind, run_pure]

section Turn

variable (settings : Engine.Settings) (handle : MonitorHandle) (binding : MonitorBinding)

section Works

variable (hfilter : ∀ filter, binding.objectFilter = some filter → filter.Storable)

include hfilter

/-- What a monitor does with one sample. -/
theorem works_turn (m : Monitor) (sample : Sample) :
    Works (Acts settings handle.policyId) (Engine.turn settings handle binding m sample) := by
  refine compositional_works.holds_turn settings handle binding (works_isHalted _)
    (works_dispatch _ trivial _ _ _ hfilter) (fun s => ?_) (fun s => ?_) m sample
  · exact reaches_retire s _ _ settings (fun h => ⟨rfl, h⟩) (fun h => ⟨rfl, h⟩)
  · exact reaches_afterPersistentFire s _ _ settings (fun h => ⟨rfl, h⟩)

end Works

/-- Whether a monitor was told to stop is asked before it looks at a sample. -/
theorem run_turn (m : Monitor) (sample : Sample) (s : Session) :
    s.run (Engine.turn settings handle binding m sample) = s.run
      (if s.monitors.isHalted handle.serial then pure (m.stop, false)
      else
        match m.observe sample.metric sample.value with
        | (false, m) => pure (m, true)
        | (true, m) => do
          let outcome ← (Engine.dispatch binding.target binding.action binding.objectFilter).run
          match m.conclude outcome.isOk with
          | (.retire, m) => do
            let halted : Bool ← Engine.ask (.isHalted handle.serial)
            if !halted then Engine.retire settings handle.policyId
            return (m.stop, false)
          | (.goOn, m) => do
            if outcome.isOk then Engine.afterPersistentFire settings handle.policyId
            return (m, true)) := rfl

/-- A monitor keeps its kind and its condition, whatever it reads. -/
theorem core_turn (m : Monitor) (sample : Sample) (s : Session) :
    (s.run (Engine.turn settings handle binding m sample)).1.1.kind = m.kind ∧
      (s.run (Engine.turn settings handle binding m sample)).1.1.condition = m.condition := by
  -- Neither to look at a value nor to conclude touches the kind or the condition, and a turn does
  -- nothing else to a monitor.
  have hobserve := observe_core m sample.metric sample.value
  rw [run_turn]
  split
  · exact ⟨rfl, rfl⟩
  · rcases hfires : m.observe sample.metric sample.value with ⟨fires, m'⟩
    rw [hfires] at hobserve
    cases fires with
    | false => exact hobserve
    | true =>
      dsimp only
      rw [run_bind]
      generalize (s.run (Engine.dispatch binding.target binding.action binding.objectFilter).run)
        = result
      have hconclude := conclude_core m' result.1.isOk
      rcases hverdict : m'.conclude result.1.isOk with ⟨verdict, m''⟩
      rw [hverdict] at hconclude
      cases verdict with
      | retire =>
        have hvalue := congrArg Prod.fst (run_when result.2
          (!result.2.monitors.isHalted handle.serial) (Engine.retire settings handle.policyId)
          (m''.stop, false))
        have hhalted : (result.2.run (do
            let halted : Bool ← Engine.ask (.isHalted handle.serial)
            if !halted then Engine.retire settings handle.policyId
            return (m''.stop, false))).1 = (m''.stop, false) := hvalue
        rw [hhalted]
        exact ⟨hconclude.1.trans hobserve.1, hconclude.2.trans hobserve.2⟩
      | goOn =>
        have hvalue := congrArg Prod.fst (run_when result.2 result.1.isOk
          (Engine.afterPersistentFire settings handle.policyId) (m'', true))
        rw [hvalue]
        exact ⟨hconclude.1.trans hobserve.1, hconclude.2.trans hobserve.2⟩

/-- A monitor that reads its queue keeps its kind and its condition, and the effort grows. -/
theorem core_serve (queue : List Sample) (m : Monitor) (s : Session) :
    s.effort ≤ (serve settings handle binding queue m s).2.effort ∧
      (serve settings handle binding queue m s).1.1.kind = m.kind ∧
      (serve settings handle binding queue m s).1.1.condition = m.condition := by
  induction queue generalizing m s with
  | nil => exact ⟨Nat.le_refl _, rfl, rfl⟩
  | cons sample rest ih =>
    have heffort := effort_run (Engine.turn settings handle binding m sample) s
    have hcore := core_turn settings handle binding m sample s
    rw [serve]
    rcases hrun : s.run (Engine.turn settings handle binding m sample) with ⟨⟨m', goesOn⟩, t⟩
    rw [hrun] at heffort hcore
    cases goesOn with
    | false => exact ⟨heffort, hcore.1, hcore.2⟩
    | true =>
      rcases ih m' t with ⟨hrest, hkind, hcondition⟩
      exact ⟨Nat.le_trans heffort hrest, hkind.trans hcore.1, hcondition.trans hcore.2⟩

/-- A monitor that reads its queue. -/
theorem reaches_serve (hfilter : ∀ filter, binding.objectFilter = some filter → filter.Storable)
    (queue : List Sample) (m : Monitor) (s : Session) :
    Reaches (Acts settings handle.policyId) s (serve settings handle binding queue m s).2 :=
  goes_serve _ reaches_refl reaches_trans settings handle binding
    (works_turn settings handle binding hfilter) queue m s

end Turn

/-! ### What a task is -/

/-- A task stays what it was launched as, but that it may be told to stop. -/
theorem core_of_effect (s t : Session) (h : s.Sound) (deed : Deed) (heffect : deed.Effect s t)
    (serial : Nat) (task : MonitorTask) (htask : s.monitors.core? serial = some task) :
    ∃ halted, t.monitors.core? serial = some { task with halted } := by
  rcases monitors_of_effect s t h deed heffect with
    ⟨hagrees, -⟩ | ⟨r, binding, condition, -, -, -, -, hmonitors, -⟩ | ⟨own, -, hmonitors⟩
  · exact ⟨task.halted, by rw [hagrees.core, htask]⟩
  · -- The task that is started has a greater serial number.
    have hlt := (h.tables.launched serial task htask).1
    exact ⟨task.halted, by rw [hmonitors, MonitorTable.core?_started, if_neg (by omega), htask]⟩
  · rw [hmonitors, MonitorTable.without, MonitorTable.core?_haltAll, MonitorTable.core?_take, htask]
    split
    · exact ⟨true, rfl⟩
    · exact ⟨task.halted, rfl⟩

theorem core_of_path (kind : Deed → Prop) (s t : Session) (h : Path kind s t) (hs : s.Sound)
    (serial : Nat) (task : MonitorTask) (htask : s.monitors.core? serial = some task) :
    ∃ halted, t.monitors.core? serial = some { task with halted } := by
  refine path_invariant (fun u => ∃ halted, u.monitors.core? serial = some { task with halted })
    ?_ s t h hs ⟨task.halted, htask⟩
  rintro deed u v - hu - hdoes ⟨halted, hcore⟩
  rcases core_of_effect u v hu deed hdoes.effect serial _ hcore with ⟨halted', hcore'⟩
  exact ⟨halted', hcore'⟩

/-- What a monitor has become is put back into its task. -/
theorem agrees_putTask (s : Session) (serial : Nat) (m : Monitor) (goesOn : Bool)
    (h : ∃ task, s.monitors.core? serial = some task ∧ task.monitor.kind = m.kind ∧
      task.monitor.condition = m.condition) :
    s.monitors.Agrees (s.putTask serial m goesOn).monitors := by
  refine ⟨fun other => ?_, rfl, rfl, rfl⟩
  rcases h with ⟨task, htask, hkind, hcondition⟩
  rw [MonitorTable.core?, putTask, Dict.get?_adjust]
  by_cases hother : other = serial
  · rw [if_pos hother, hother, htask]
    rw [MonitorTable.core?, Option.map_eq_some_iff] at htask
    rcases htask with ⟨stored, hstored, rfl⟩
    rw [hstored, Option.map_some, Option.map_some]
    simp only [MonitorTask.core] at hkind hcondition ⊢
    rw [hkind, hcondition]
  · rw [if_neg hother, MonitorTable.core?]

theorem reaches_read (settings : Engine.Settings) (s t : Session) (serial : Nat)
    (hbackend : t.backend = s.backend) (heffort : t.effort = s.effort)
    (hagrees : s.monitors.Agrees t.monitors)
    (hothers : ∀ other, other ≠ serial →
      t.monitors.tasks.get? other = s.monitors.tasks.get? other) :
    Reaches (Fires settings) s t := by
  refine reaches_of_does s t (by omega) fun _ hs => ?_
  have hstore : t.store = s.store := congrArg Backend.data hbackend
  rcases hs.bound with ⟨n, hn, hledger⟩
  refine ⟨.read serial, trivial, ⟨fun key _ => by rw [hstore], fun name => by rw [hstore], hagrees,
    hothers⟩, ?_, by rw [hstore]; exact hs.legible, n, by omega, by rw [hstore]; exact hledger⟩
  have hopen := hs.unrefused
  rw [Open] at hopen ⊢
  rw [hbackend, hopen]

/-- One monitor reads what it has to read. -/
theorem reaches_runTask (settings : Engine.Settings) (s : Session) (serial : Nat) :
    Reaches (Fires settings) s (s.runTask settings serial) := by
  rw [runTask]
  cases htask : s.monitors.tasks.get? serial with
  | none => exact reaches_refl s
  | some task =>
    dsimp only
    split
    · exact reaches_refl s
    · have hreach := fun hfilter =>
        reaches_serve settings task.handle task.binding hfilter task.queue task.monitor s
      rcases core_serve settings task.handle task.binding task.queue task.monitor s with
        ⟨hgrows, hkind, hcondition⟩
      generalize serve settings task.handle task.binding task.queue task.monitor s = outcome at *
      rcases outcome with ⟨⟨m, goesOn⟩, t⟩
      refine ⟨hgrows, fun heffort hs => ?_⟩
      have hcore : s.monitors.core? serial = some task.core := by
        rw [MonitorTable.core?, htask]
        rfl
      -- The record for which the task was started says that the filter of its action can be
      -- stored.
      rcases hs.described serial _ hcore with ⟨r, hdescribes⟩
      have hserve := reaches_mono (Fires settings) _ _
        (hreach (PolicyRecord.storable_of_describes r _ _ hdescribes)) (fires_of_acts settings _)
      rcases hserve.path heffort hs with ⟨ht, hpath⟩
      -- Whatever the deeds were, the task has kept its core, so that it can be put back into its
      -- line.
      rcases core_of_path _ s t hpath hs.toSound serial _ hcore with ⟨halted, hlater⟩
      have hagrees := agrees_putTask t serial m goesOn
        ⟨_, hlater, hkind.symm, hcondition.symm⟩
      have hread : Reaches (Fires settings) t (t.putTask serial m goesOn) := by
        refine reaches_read settings t _ serial rfl rfl hagrees fun other hother => ?_
        exact (Dict.get?_adjust _ _ _ _).trans (if_neg hother)
      exact (reaches_trans _ _ _ hserve hread).path heffort hs

theorem reaches_runTasks (settings : Engine.Settings) (serials : List Nat) (s : Session) :
    Reaches (Fires settings) s (serials.foldl (runTask settings) s) :=
  goes_runTasks _ reaches_refl reaches_trans settings (reaches_runTask settings) serials s

/-- The session in which the monitors that have samples begin to run. -/
def unready (s : Session) : Session := s.withMonitors { s.monitors with ready := [] }

theorem reaches_unready (settings : Engine.Settings) (s : Session) :
    Reaches (Fires settings) s s.unready :=
  reaches_read settings s _ 0 rfl rfl ⟨fun _ => rfl, rfl, rfl, rfl⟩ fun _ _ => rfl

theorem settle_eq (settings : Engine.Settings) (s : Session) :
    s.settle settings = s.monitors.ready.foldl (runTask settings) s.unready := rfl

/-- All monitors read what they have to read. -/
theorem reaches_settle (settings : Engine.Settings) (s : Session) :
    Reaches (Fires settings) s (s.settle settings) := by
  rw [settle_eq]
  exact reaches_trans _ _ _ (reaches_unready settings s) (reaches_runTasks settings _ _)

/-! ### Samples -/

theorem works_deliver (sample : Sample) : Works Hears (Engine.ask (.deliver sample)) := by
  intro s
  rw [run_deliver]
  refine reaches_of_does s _ ?_ fun _ hs => ⟨.hear sample, trivial, ?_⟩
  · exact effort_run (Engine.ask (.deliver sample)) s
  · rcases hs.bound with ⟨n, hn, hledger⟩
    refine ⟨⟨fun _ _ => rfl, fun _ => rfl, rfl⟩, hs.unrefused, hs.legible, n, ?_, hledger⟩
    exact Nat.le_trans hn (effort_run (Engine.ask (.deliver sample)) s)

theorem works_ingestLines (lines : List String) (report : Engine.IngestReport) :
    Works Hears (Engine.ingestLines lines report) := by
  induction lines generalizing report with
  | nil => exact works_pure _
  | cons line rest ih =>
    refine works_bind _ _ ?_ fun outcome => ?_
    · rw [Engine.ingestLine]
      cases Sample.parse line with
      | error e => exact works_throw _
      | ok sample => exact goes_lift _ _ (works_deliver sample)
    · cases outcome with
      | ok delivered => exact ih _
      | error e => exact ih _

/-- What samples do. -/
theorem reaches_ingest (text : String) (s : Session) :
    Reaches Hears s (s.run (Engine.ingest text)).2 := works_ingestLines _ _ s

end Session

end StoragePolicy
