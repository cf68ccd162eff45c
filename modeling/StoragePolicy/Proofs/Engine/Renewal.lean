import Mathlib.Data.List.Induction
import StoragePolicy.Proofs.Engine.Operations

/-!
# A new engine on an old store

The monitors of a session end with it, and its store remains. A new engine that is put on this store
and reloads gets a monitor for every record that is alive, and it is the monitor that was started
when the policy was deployed: with the same kind, condition, target, action and object filter.

None of this is stored as such. But a record that is stored at the end was created by some
deployment, and from then on it was marked at most. The monitor of that deployment is described by
the record as it was then, and the new one by the record as it is now, and what a record describes
does not depend on its mark.

## Main definitions

* `MonitorTable.liveTask?`: The task of the live monitor of a policy.
* `MonitorTask.Alike`: Tasks that watch for the same and do the same.
* `Session.Origin`: A deployment that a record comes from.
* `Session.Renewed`: What a reload on the store of a session comes to.

## Theorems

* `alike_of_describes`: A record describes one monitor only.
* `origin_of_perform`, `origin_of_run`: Every record comes from a deployment.
* `renewed_of_run`: What a new engine makes of the store of a session.
-/

namespace StoragePolicy

/-- The task of the live monitor of a policy. -/
def MonitorTable.liveTask? (t : MonitorTable) (id : Nat) : Option MonitorTask :=
  (t.live.get? id).bind fun serial => t.tasks.get? serial

/-- Tasks of one policy that watch for the same and do the same. -/
structure MonitorTask.Alike (a b : MonitorTask) : Prop where
  policyId : a.handle.policyId = b.handle.policyId
  kind : a.handle.kind = b.handle.kind ∧ a.monitor.kind = b.monitor.kind
  condition : a.monitor.condition = b.monitor.condition
  target : a.binding.target = b.binding.target ∧ a.handle.target = b.handle.target
  action : a.binding.action = b.binding.action
  objectFilter : a.binding.objectFilter = b.binding.objectFilter

namespace Session

/-- The deployment that a record comes from, among the operations of a session: the record was not
    stored before, and has been stored since. -/
structure Origin (directory : Directory) (settings : Engine.Settings) (s : Session)
    (operations : List Operation) (r : PolicyRecord) (before : List Operation) (text : String)
    (after : List Operation) : Prop where
  operations : operations = before ++ .deploy text :: after
  absent : (s.performAll directory settings before).store.record? r.id = none
  kept : ∀ later, later <+: after →
    ∃ r', (s.performAll directory settings (before ++ .deploy text :: later)).store.record? r.id =
      some r' ∧ r'.unmarked = r.unmarked

/-- What a new engine comes to by a reload on the store of a session: it reports no failure and the
    policies that are alive, in ascending order; it leaves the store as it is, and has for each of
    them the monitor that was started when the policy was deployed, and no other. -/
structure Renewed (directory : Directory) (settings : Engine.Settings) (s : Session)
    (operations : List Operation) (renewed reloaded : Session) (records : List PolicyRecord) :
    Prop where
  ascending : (records.map PolicyRecord.id).Pairwise (fun a b => a < b)
  alive : ∀ r, r ∈ records ↔ r.alive = true ∧
    ∃ name, (s.performAll directory settings operations).store.recordAt name = some r
  report : renewed.run Engine.reload.run =
    (.ok { aliveRecords := records.length, spawned := records.map PolicyRecord.id, failed := [] },
      reloaded)
  unchanged : reloaded.backend = renewed.backend ∧ reloaded.storage = renewed.storage
  live : ∀ id, reloaded.monitors.isLive id = true ↔ id ∈ records.map PolicyRecord.id
  alike : ∀ r ∈ records, ∃ before text after task task',
    Origin directory settings s operations r before text after ∧
    (((s.performAll directory settings before).run
      (Engine.deploy directory settings text)).2.monitors.liveTask? r.id = some task) ∧
    reloaded.monitors.liveTask? r.id = some task' ∧ task'.Alike task

/-! ### What a record describes -/

/-- The live monitor of a policy is described by its record. -/
theorem liveTask?_of_isLive (s : Session) (hs : s.Sound) (id : Nat)
    (hlive : s.monitors.isLive id = true) :
    ∃ r task, s.store.record? id = some r ∧ s.monitors.liveTask? id = some task ∧
      task.handle.policyId = id ∧ task.handle.kind = .ofAction task.binding.action ∧
      task.handle.target = task.binding.target ∧ task.monitor.kind = task.handle.kind ∧
      r.Describes task.binding task.monitor.condition := by
  rcases (MonitorTable.isLive_iff _ id).mp hlive with ⟨serial, hserial⟩
  rcases hs.matched id serial hserial with ⟨r, core, hr, hcore, hdescribes⟩
  have hlaunched := (hs.tables.launched serial core hcore).2
  rcases hs.tables.live id serial hserial with ⟨core', hcore', -, hid⟩
  rw [hcore] at hcore'
  cases hcore'
  rw [MonitorTable.core?, Option.map_eq_some_iff] at hcore
  rcases hcore with ⟨task, htask, rfl⟩
  refine ⟨r, task, hr, ?_, hid, hlaunched.handleKind, hlaunched.target, hlaunched.monitorKind,
    hdescribes⟩
  rw [MonitorTable.liveTask?, hserial, Option.bind_some, htask]

/-- A record describes one monitor only, whether it is alive or not. -/
theorem alike_of_describes (s t : Session) (hs : s.Sound) (ht : t.Sound) (id : Nat)
    (r r' : PolicyRecord) (hr : s.store.record? id = some r) (hr' : t.store.record? id = some r')
    (heq : r.unmarked = r'.unmarked) (hlive : s.monitors.isLive id = true)
    (hlive' : t.monitors.isLive id = true) :
    ∃ task task', s.monitors.liveTask? id = some task ∧ t.monitors.liveTask? id = some task' ∧
      task.Alike task' := by
  rcases liveTask?_of_isLive s hs id hlive with
    ⟨r₁, task, hr₁, htask, hid, hkind, htarget, hmonitor, hdescribes⟩
  rcases liveTask?_of_isLive t ht id hlive' with
    ⟨r₂, task', hr₂, htask', hid', hkind', htarget', hmonitor', hdescribes'⟩
  rw [hr] at hr₁
  cases hr₁
  rw [hr'] at hr₂
  cases hr₂
  -- Reading a record is a function of the record, and its mark is not read.
  have hmarked := PolicyRecord.describes_of_unmarked r r' _ _ heq hdescribes
  have hbinding : task.binding = task'.binding := by
    have hread := hmarked.binding
    rw [hdescribes'.binding] at hread
    exact (Except.ok.inj hread).symm
  have hcondition : task.monitor.condition = task'.monitor.condition := by
    have hread := hmarked.condition
    rw [hdescribes'.condition] at hread
    exact (Except.ok.inj hread).symm
  have hhandle : task.handle.kind = task'.handle.kind := by
    rw [hkind, hkind', hbinding]
  refine ⟨task, task', htask, htask', hid.trans hid'.symm, ⟨hhandle, ?_⟩, hcondition, ⟨?_, ?_⟩, ?_,
    ?_⟩
  · rw [hmonitor, hmonitor', hhandle]
  · rw [hbinding]
  · rw [htarget, htarget', hbinding]
  · rw [hbinding]
  · rw [hbinding]

/-! ### Where records come from -/

/-- A deployment leaves the records alone that are there, and the monitors of those it creates are
    live. -/
theorem record?_of_grows (s t : Session) (h : Path Grows s t) (hs : s.Sound) (id : Nat) :
    t.store.record? id = s.store.record? id ∨
      (s.store.record? id = none ∧ t.monitors.isLive id = true) := by
  refine path_invariant (fun u => u.store.record? id = s.store.record? id ∨
    (s.store.record? id = none ∧ u.monitors.isLive id = true)) ?_ s t h hs (Or.inl rfl)
  intro deed u v hkind hu _ hdoes hinv
  have hrecord := record?_of_effect u v hu deed hdoes.effect id
  cases deed with
  | pass =>
    rw [hrecord, hdoes.effect.2]
    exact hinv
  | create r =>
    rcases hdoes.effect with ⟨hnone, -, -, -, binding, condition, -, hmonitors⟩
    have hstarted := MonitorTable.live_started u.monitors r.id condition binding id
    simp only [MonitorTable.isLive_iff] at hinv ⊢
    simp only [hmonitors, hstarted]
    by_cases hid : id = r.id
    · -- The id is new, so that nothing was stored under it at the beginning either.
      refine Or.inr ⟨?_, _, if_pos hid⟩
      rcases hinv with hsame | ⟨hbefore, -⟩
      · rw [← hsame, hid, hnone]
      · exact hbefore
    · rw [hrecord, Deed.recordAfter, if_neg hid, if_neg hid]
      exact hinv
  | _ => exact False.elim hkind

/-- Deeds that create nothing leave no records but those that were there, up to their marks. -/
theorem old_of_path (kind : Deed → Prop) (s t : Session) (h : Path kind s t) (hs : s.Sound)
    (hkind : ∀ r, ¬ kind (.create r)) (id : Nat) (r : PolicyRecord)
    (hr : t.store.record? id = some r) :
    ∃ old, s.store.record? id = some old ∧ old.unmarked = r.unmarked := by
  induction h with
  | refl s => exact ⟨r, hr, rfl⟩
  | step deed s t u hdeed hdoes hsound hrest ih =>
    rcases ih hsound hr with ⟨middle, hmiddle, heq⟩
    rcases old_of_effect s t hs deed hdoes.effect id middle hmiddle with
      ⟨old, hold, heq'⟩ | ⟨rfl, -⟩
    · exact ⟨old, hold, heq'.trans heq⟩
    · exact absurd hdeed (hkind middle)

section Origin

variable (directory : Directory) (settings : Engine.Settings)

/-- A record after an operation was there before, up to its mark, or the operation is a deployment
    that has just created it. -/
theorem origin_of_perform (stopped : Bool) (s : Session)
    (h : s.Orderly directory settings stopped) (operation : Operation)
    (heffort : (s.perform directory settings operation).effort < Number.maxWord) (id : Nat)
    (r : PolicyRecord) (hr : (s.perform directory settings operation).store.record? id = some r) :
    (∃ old, s.store.record? id = some old ∧ old.unmarked = r.unmarked) ∨
      ∃ text r', operation = .deploy text ∧ s.store.record? id = none ∧
        (s.run (Engine.deploy directory settings text)).2.Sound ∧
        (s.run (Engine.deploy directory settings text)).2.store.record? id = some r' ∧
        r'.unmarked = r.unmarked ∧
        (s.run (Engine.deploy directory settings text)).2.monitors.isLive id = true := by
  have hsettle := reaches_settle settings (s.run (operation.program directory settings)).2
  have hbound := Nat.lt_of_le_of_lt hsettle.effort heffort
  have hprogram := orderly_program directory settings stopped s h operation hbound
  -- The monitors that run afterwards create nothing.
  rcases old_of_path _ _ _ (hsettle.path heffort hprogram.counted).2 hprogram.counted.toSound
    (fun _ hkind => hkind) id r hr with ⟨middle, hmiddle, heq⟩
  have hold : operation ≠ .shutdown → (∀ r, ¬ operation.Deeds (.create r)) →
      ∃ old, s.store.record? id = some old ∧ old.unmarked = r.unmarked := by
    intro hoperation hkind
    have hreach := reaches_program directory settings s h.directory operation hoperation
    rcases old_of_path _ _ _ (hreach.path hbound h.counted).2 h.counted.toSound hkind id middle
      hmiddle with ⟨old, hold, heq'⟩
    exact ⟨old, hold, heq'.trans heq⟩
  cases operation with
  | deploy text =>
    have hreach := reaches_program directory settings s h.directory (.deploy text) (by simp)
    have hpath := (hreach.path hbound h.counted).2
    have hrun : (s.run (Operation.program directory settings (.deploy text))).2 =
        (s.run (Engine.deploy directory settings text)).2 := by
      rw [Operation.program, run_discard_program]
    rw [hrun] at hpath hmiddle
    have hsound := hprogram.counted.toSound
    rw [hrun] at hsound
    rcases record?_of_grows s _ hpath h.counted.toSound id with hsame | ⟨hnone, hlive⟩
    · rw [hsame] at hmiddle
      exact Or.inl ⟨middle, hmiddle, heq⟩
    · exact Or.inr ⟨text, middle, rfl, hnone, hsound, hmiddle, heq, hlive⟩
  | shutdown =>
    rw [Operation.program, (counted_shutdown s h.counted).2.1] at hmiddle
    exact Or.inl ⟨middle, hmiddle, heq⟩
  | deleteStatic targetId id => exact Or.inl (hold (by simp) (by simp [Operation.Deeds]))
  | deleteDynamic id => exact Or.inl (hold (by simp) (by simp [Operation.Deeds]))
  | updateStatic targetId id patch => exact Or.inl (hold (by simp) (by simp [Operation.Deeds]))
  | respawn id => exact Or.inl (hold (by simp) (by simp [Operation.Deeds]))
  | reload => exact Or.inl (hold (by simp) (by simp [Operation.Deeds, Revives]))
  | ingest text => exact Or.inl (hold (by simp) (by simp [Operation.Deeds, Hears]))

/-- Every record comes from a deployment, and its monitor was live right after it. -/
theorem origin_of_run (s : Session) (hfresh : s.Fresh) (hdirectory : directory.Slashless s.store)
    (operations : List Operation)
    (heffort : (s.performAll directory settings operations).effort < Number.maxWord) (id : Nat)
    (r : PolicyRecord)
    (hr : (s.performAll directory settings operations).store.record? id = some r) :
    ∃ before text after deployed r', Origin directory settings s operations r before text after ∧
      deployed = ((s.performAll directory settings before).run
        (Engine.deploy directory settings text)).2 ∧
      deployed.Sound ∧ deployed.store.record? id = some r' ∧ r'.unmarked = r.unmarked ∧
      deployed.monitors.isLive id = true := by
  -- By induction on the operations from the last one back: a record is there before it, or it is
  -- the deployment that is looked for.
  induction operations using List.reverseRecOn generalizing r with
  | nil =>
    have hnone : s.store.record? id = none :=
      Store.recordAt_of_get?_eq_none _ _ (hfresh.vacant _ (Or.inr (Or.inr (Or.inr ⟨_, rfl⟩))))
    have hsome : s.store.record? id = some r := hr
    rw [hnone] at hsome
    exact nomatch hsome
  | append_singleton operations operation ih =>
    have hlast : s.performAll directory settings (operations ++ [operation]) =
        (s.performAll directory settings operations).perform directory settings operation :=
      performAll_append directory settings s operations [operation]
    have hstored := hr
    have hbound := heffort
    rw [hlast] at hstored hbound
    have hbefore := Nat.lt_of_le_of_lt (effort_perform directory settings _ operation) hbound
    have horderly := orderly_performAll directory settings false s
      (orderly_of_fresh directory settings s hfresh hdirectory) operations hbefore
    have hid : r.id = id := by
      have hafter := orderly_perform directory settings _ _ horderly operation hbound
      exact (Store.get?_of_record? _ hafter.counted.filed id r hstored).2.1
    rcases origin_of_perform directory settings _ _ horderly operation hbound id r hstored with
      ⟨old, hold, heq⟩ | ⟨text, r', rfl, hnone, hsound, hr', heq, hlive⟩
    · rcases ih hbefore old hold with
        ⟨before, text, after, deployed, r', horigin, hdeployed, hsound, hr', heq', hlive⟩
      have hunmarked := congrArg PolicyRecord.id heq
      have hidOld : old.id = r.id := hunmarked
      refine ⟨before, text, after ++ [operation], deployed, r', ⟨?_, ?_, ?_⟩, hdeployed, hsound,
        hr',
        heq'.trans heq, hlive⟩
      · rw [horigin.operations, List.append_assoc, List.cons_append]
      · rw [← hidOld]
        exact horigin.absent
      · intro later hlater
        rcases List.prefix_concat_iff.mp hlater with rfl | hshorter
        · refine ⟨r, ?_, rfl⟩
          rw [hid, ← hr, horigin.operations, List.append_assoc, List.cons_append]
        · rcases horigin.kept later hshorter with ⟨r'', hr'', heq''⟩
          rw [hidOld] at hr''
          exact ⟨r'', hr'', heq''.trans heq⟩
    · refine ⟨operations, text, [], _, r', ⟨rfl, ?_, ?_⟩, rfl, hsound, hr', heq, hlive⟩
      · rw [hid]
        exact hnone
      · intro later hlater
        rw [List.prefix_nil.mp hlater, hid]
        exact ⟨r, hr, rfl⟩

end Origin

/-! ### Reloading -/

/-- A session without monitors is sound on a store that a sound session has left behind. -/
theorem sound_of_backend (s t : Session) (hs : s.Sound) (hbackend : t.backend = s.backend)
    (hmonitors : t.monitors = {}) : t.Sound := by
  have hstore : t.store = s.store := congrArg Backend.data hbackend
  -- What is said of the store holds as before. What is said of monitors holds since there are
  -- none.
  refine ⟨?_, ?_, ?_, ?_, ?_, ?_, ?_, ?_⟩
  · have hopen := hs.unrefused
    rw [Open] at hopen ⊢
    rw [hbackend, hopen]
  · rw [hstore]
    exact hs.ledger
  · rw [hstore]
    exact hs.legible
  · rw [hstore]
    exact hs.filed
  · rw [hstore]
    exact hs.readable
  · rw [hmonitors]
    exact MonitorTable.consistent_empty
  · intro serial task htask
    rw [hmonitors] at htask
    cases htask
  · intro id serial hserial
    rw [hmonitors] at hserial
    cases hserial

/-- A reload on the store that a session leaves behind starts the monitors of the policies that are
    alive, and they are the monitors that were started when the policies were deployed. The ids that
    are taken in the session must fit into a machine word. -/
theorem renewed_of_run (directory : Directory) (settings : Engine.Settings) (s : Session)
    (hfresh : s.Fresh) (hdirectory : directory.Slashless s.store) (operations : List Operation)
    (heffort : (s.performAll directory settings operations).effort < Number.maxWord)
    (renewed : Session)
    (hbackend : renewed.backend = (s.performAll directory settings operations).backend)
    (hmonitors : renewed.monitors = {}) :
    ∃ records reloaded, Renewed directory settings s operations renewed reloaded records := by
  have horderly := orderly_performAll directory settings false s
    (orderly_of_fresh directory settings s hfresh hdirectory) operations heffort
  have hold := horderly.counted.toSound
  have hstore : renewed.store = (s.performAll directory settings operations).store :=
    congrArg Backend.data hbackend
  have hunlive : ∀ id, renewed.monitors.isLive id = false := by
    intro id
    rw [hmonitors]
    rfl
  rcases run_reload renewed (sound_of_backend _ renewed hold hbackend hmonitors) with
    ⟨records, monitors, hsorted, hmem, hrun, hreloaded, -, hlive⟩
  refine ⟨records, renewed.withMonitors monitors, hsorted, fun r => ?_, hrun, ⟨rfl, rfl⟩,
    fun id => ?_, fun r hr => ?_⟩
  · rw [hmem, hstore, and_comm]
    refine and_congr_right fun _ => ⟨fun hr => ⟨_, hr⟩, ?_⟩
    rintro ⟨name, hr⟩
    rw [(Store.get?_of_recordAt _ hold.filed name r hr).2.1] at hr
    exact hr
  · rw [monitors_withMonitors, hlive, hunlive]
    simp
  · -- The record was made by a deployment, which started the same monitor.
    have hstored := ((hmem r).mp hr).1
    have hnow := (hlive r.id).mpr (Or.inr (List.mem_map_of_mem hr))
    have hthen := hstored
    rw [hstore] at hthen
    rcases origin_of_run directory settings s hfresh hdirectory operations heffort r.id r hthen with
      ⟨before, text, after, deployed, r', horigin, rfl, hdeployed, hr', heq, hwas⟩
    rcases alike_of_describes _ _ hreloaded hdeployed r.id r r' hstored hr' heq.symm hnow hwas with
      ⟨task', task, htask', htask, halike⟩
    exact ⟨before, text, after, task, task', horigin, htask, htask', halike⟩

/-- A new engine on the store that a session leaves behind. -/
def leftBy (s : Session) : Session := { backend := s.backend }

theorem backend_leftBy (s : Session) : (leftBy s).backend = s.backend := rfl

theorem monitors_leftBy (s : Session) : (leftBy s).monitors = {} := rfl

/-- A policy that has fired is started again by a new engine. -/
theorem renewed_of_run_fired :
    ∃ records reloaded, records.map PolicyRecord.id = [1] ∧ Renewed alice {} withCompress firedOnce
      (leftBy (withCompress.performAll alice {} firedOnce)) reloaded records := by
  have heffort : (withCompress.performAll alice {} firedOnce).effort = 2 := by decide +kernel
  have hbound : (withCompress.performAll alice {} firedOnce).effort < Number.maxWord := by
    rw [heffort]
    decide
  rcases renewed_of_run alice {} withCompress fresh_withCompress (slashless_alice _) firedOnce
    hbound _ (backend_leftBy _) (monitors_leftBy _) with ⟨records, reloaded, hrenewed⟩
  refine ⟨records, reloaded, ?_, hrenewed⟩
  have hspawned : ((leftBy (withCompress.performAll alice {} firedOnce)).run
      Engine.reload.run).1.toOption.map Engine.ReloadReport.spawned = some [1] := by
    decide +kernel
  rw [hrenewed.report] at hspawned
  exact Option.some.inj hspawned

end Session

end StoragePolicy
