import StoragePolicy.Proofs.Engine.Reserved
import StoragePolicy.Proofs.Registry.Remains

/-!
# Sessions of any directory

Where the ids and names of tenants have no slashes, every record describes the monitor that is
started from it. With a slash in them a record is read back with another target. Nothing of what is
known of ids and entries hangs on that, so here the store is followed without it: the ids are in
order, entries and records can be read, and a live policy has a record, whatever that record says.

The last of these is what bounds the counter. An id that is taken for a record is paid for by the
launch of its monitor, and the launch is made because nothing is live under an id without a record.

## Main definitions

* `MonitorTable.Within`: Tables with no more live policies and no other bindings than others.
* `Registry.Maintains`: Programs over the store that keep it in order and delete no record.
* `Session.Stocked`: The store of a session is in order.
* `Session.Upholds`: What a part of a run keeps, as long as the effort can be held in a machine
  word.

## Theorems

* `goes_plain`, `goes_maintains`: Programs that start no monitor and take no id keep it.
* `goes_dispatch`, `goes_deploy`: So does an action, and so does a deployment.
* `upholds_perform`: So does every operation.
-/

namespace StoragePolicy

open Registry

/-! ### Tables that shrink -/

namespace MonitorTable

/-- Tables with no live policy that others have not, and in which tasks have the bindings that they
    have in the others. -/
structure Within (t u : MonitorTable) : Prop where
  live : ∀ id, u.isLive id = true → t.isLive id = true
  bindings : ∀ serial task, u.tasks.get? serial = some task →
    ∃ old, t.tasks.get? serial = some old ∧ task.binding = old.binding
  nextSerial : u.nextSerial = t.nextSerial

variable (t : MonitorTable)

theorem within_of_tasks (u : MonitorTable) (htasks : u.tasks = t.tasks)
    (hlive : ∀ id, u.isLive id = true → t.isLive id = true) (hnext : u.nextSerial = t.nextSerial) :
    t.Within u where
  live := hlive
  bindings := fun serial task htask => ⟨task, by rw [← htasks, htask], rfl⟩
  nextSerial := hnext

theorem within_adjust (serial : Nat) (f : MonitorTask → MonitorTask)
    (hf : ∀ task, (f task).binding = task.binding) :
    t.Within { t with tasks := t.tasks.adjust serial f } where
  live := fun _ hlive => hlive
  bindings := by
    intro other task htask
    rw [Dict.get?_adjust] at htask
    split at htask
    · rename_i hother
      rw [Option.map_eq_some_iff] at htask
      rcases htask with ⟨old, hold, rfl⟩
      exact ⟨old, hother ▸ hold, hf old⟩
    · exact ⟨task, htask, rfl⟩
  nextSerial := rfl

theorem within_of_agrees (u : MonitorTable) (h : t.Agrees u) : t.Within u where
  live := by
    intro id hlive
    rw [isLive, h.live] at hlive
    exact hlive
  bindings := by
    intro serial task htask
    have hcore := h.core serial
    rw [core?, htask, core?, Option.map_some, eq_comm, Option.map_eq_some_iff] at hcore
    rcases hcore with ⟨old, hold, heq⟩
    exact ⟨old, hold, (congrArg MonitorTask.binding heq).symm⟩
  nextSerial := h.nextSerial

theorem within_take (id : Nat) : t.Within (t.take id).2 := by
  refine within_of_tasks t _ ?_ (fun other hlive => (isLive_take t id other hlive).2) ?_
  · rw [take]
    split <;> rfl
  · rw [take]
    split <;> rfl

theorem binding_started (id : Nat) (condition : Condition) (binding : MonitorBinding)
    (serial : Nat) (task : MonitorTask)
    (h : (t.started id condition binding).tasks.get? serial = some task) :
    task.binding = binding ∨ t.tasks.get? serial = some task := by
  rw [started, Dict.get?_insert] at h
  split at h
  · cases h
    exact Or.inl rfl
  · exact Or.inr h

end MonitorTable

/-- Programs over the store that keep it in order and delete no record. -/
def Registry.Maintains {α : Type} (p : Registry α) : Prop :=
  ∀ (d : Store) (n : Nat), d.Ledger n → d.Legible → d.Filed →
    (∃ m, m ≤ n ∧ (on p d).2.Ledger m) ∧ (on p d).2.Legible ∧ (on p d).2.Filed ∧
      ∀ id, d.record? id ≠ none → (on p d).2.record? id ≠ none

namespace Registry

theorem maintains_of_passes {α : Type} (p : Registry α) (hp : Passes p) : Maintains p := by
  intro d n hledger hlegible hfiled
  rcases hp d n hledger hlegible with ⟨hafter, hread, hrecords, -⟩
  refine ⟨hafter, hread, Store.filed_sameRecords d hfiled _ hrecords, fun id hid => ?_⟩
  rw [Store.record?_sameRecords d _ hrecords]
  exact hid

/-- Marking a record leaves it where it was. -/
theorem maintains_setAlive (id : Nat) (alive : Bool) : Maintains (setAlive id alive) := by
  intro d n hledger hlegible hfiled
  have hrefiled := (on_setAlive d hfiled id alive).2
  have hrecord : ∀ r, ((d.record? id).map fun r => r.marked alive) = some r →
      r.Storable ∧ r.id = id := by
    intro r hr
    rw [Option.map_eq_some_iff] at hr
    rcases hr with ⟨old, hold, rfl⟩
    rcases Store.get?_of_record? d hfiled id old hold with ⟨-, hid, hstorable⟩
    exact ⟨old.storable_marked alive hstorable, hid⟩
  refine ⟨(on_sparing _ (sparing_setAlive id alive) d n hledger).1,
    legible_on _ (makes_tidy_of_sparing _ (sparing_setAlive id alive)) d hlegible,
    Store.filed_refiled d hfiled _ _ _ hrefiled hrecord, fun other hother => ?_⟩
  rw [Store.record?_refiled d _ _ _ _ hrefiled fun r hr => (hrecord r hr).1]
  split
  · rename_i hid
    rw [Ne, Option.map_eq_none_iff, ← hid]
    exact hother
  · exact hother

end Registry

namespace Session

/-- The store of a session is in order, and every live policy has a record. What the actions of
    monitors store can be read. -/
structure Stocked (s : Session) : Prop where
  unrefused : s.Open
  bound : ∃ n, n ≤ s.effort ∧ s.store.Ledger n
  legible : s.store.Legible
  filed : s.store.Filed
  recorded : ∀ id, s.monitors.isLive id = true → s.store.record? id ≠ none
  sized : ∀ serial task, s.monitors.tasks.get? serial = some task →
    Engine.Sized task.binding.objectFilter

/-- What a part of a run keeps, as long as the effort can be held in a machine word. -/
structure Upholds (s t : Session) : Prop where
  effort : s.effort ≤ t.effort
  stocked : t.effort < Number.maxWord → s.Stocked → t.Stocked

theorem upholds_refl (s : Session) : Upholds s s := ⟨Nat.le_refl _, fun _ hs => hs⟩

theorem upholds_trans (s t u : Session) (h : Upholds s t) (h' : Upholds t u) : Upholds s u where
  effort := Nat.le_trans h.effort h'.effort
  stocked := fun hle hs =>
    h'.stocked hle (h.stocked (Nat.lt_of_le_of_lt h'.effort hle) hs)

/-! ### Calls that take no id -/

theorem upholds_within (s : Session) (u : MonitorTable) (h : s.monitors.Within u) :
    Upholds s (s.withMonitors u) := by
  have heffort : (s.withMonitors u).effort = s.effort := by
    rw [effort, effort, monitors_withMonitors, h.nextSerial]
    rfl
  refine ⟨Nat.le_of_eq heffort.symm, fun _ hs => ?_⟩
  refine ⟨hs.unrefused, ?_, hs.legible, hs.filed, fun id hid => hs.recorded id (h.live id hid),
    fun serial task htask => ?_⟩
  · rw [heffort]
    exact hs.bound
  · rcases h.bindings serial task htask with ⟨old, hold, hbinding⟩
    rw [hbinding]
    exact hs.sized serial old hold

/-- A call to the storage side is effort, and no more. -/
theorem upholds_withStorage (s : Session) (c : InstallerCall) :
    Upholds s (s.withStorage (s.storage.receive c).2) := by
  have heffort : s.effort ≤ (s.withStorage (s.storage.receive c).2).effort := by
    simp [effort, withStorage, StorageSide.receive]
  refine ⟨heffort, fun _ hs => ?_⟩
  rcases hs.bound with ⟨n, hn, hledger⟩
  exact ⟨hs.unrefused, ⟨n, Nat.le_trans hn heffort, hledger⟩, hs.legible, hs.filed, hs.recorded,
    hs.sized⟩

/-- A call that starts no monitor leaves none that there was not before. -/
theorem within_exec (c : Engine.Call) (hc : c.Plain) (s : Session) :
    s.monitors.Within (exec c s).2.monitors := by
  have hrefl : s.monitors.Within s.monitors :=
    MonitorTable.within_of_tasks _ _ rfl (fun _ hlive => hlive) rfl
  cases c with
  | store c => exact False.elim hc
  | launch id condition binding => exact False.elim hc
  | install target filter entry => exact hrefl
  | uninstall target filter => exact hrefl
  | isLive id => exact hrefl
  | isHalted serial => exact hrefl
  | take id => exact MonitorTable.within_take _ id
  | drain =>
    refine MonitorTable.within_of_tasks _ _ rfl (fun id hlive => ?_) rfl
    cases hlive
  | halt serial => exact MonitorTable.within_adjust _ serial _ fun _ => rfl
  | unsubscribe tenantId id => exact MonitorTable.within_of_tasks _ _ rfl (fun _ hlive => hlive) rfl
  | deliver sample =>
    exact MonitorTable.within_of_agrees _ _ (MonitorTable.agrees_deliver s.monitors sample)

theorem upholds_exec (c : Engine.Call) (hc : c.Plain) (s : Session) : Upholds s (exec c s).2 := by
  have hwithin := within_exec c hc s
  cases c with
  | store c => exact False.elim hc
  | launch id condition binding => exact False.elim hc
  | install target filter entry => exact upholds_withStorage s _
  | uninstall target filter => exact upholds_withStorage s _
  | isLive id => exact upholds_refl s
  | isHalted serial => exact upholds_refl s
  | _ => exact upholds_within s _ hwithin

section Goes

variable {α : Type}

/-- A program that neither asks the store nor starts a monitor. -/
theorem goes_plain (p : Program Engine.interface α) (hp : p.Makes Engine.Call.Plain) :
    Goes Upholds p := by
  induction p with
  | done a => exact upholds_refl
  | call c next ih =>
    exact fun s => upholds_trans _ _ _ (upholds_exec c hp.1 s) (ih _ (hp.2 _) (exec c s).2)

/-- A program over the store that keeps it in order and deletes no record. -/
theorem goes_maintains (p : Registry α) (hp : Maintains p) :
    Goes Upholds (Engine.ofRegistry p).run := by
  intro s
  refine ⟨effort_run _ s, fun _ hs => ?_⟩
  rw [run_ofRegistry s p hs.unrefused]
  rcases hs.bound with ⟨n, hn, hledger⟩
  rcases hp s.store n hledger hs.legible hs.filed with ⟨⟨m, hm, hafter⟩, hlegible, hfiled, hkept⟩
  exact ⟨hs.unrefused, ⟨m, Nat.le_trans hm hn, hafter⟩, hlegible, hfiled,
    fun id hid => hkept id (hs.recorded id hid), hs.sized⟩

theorem goes_idle (p : Registry α) (hp : p.run.Makes Store.Call.Idle) :
    Goes Upholds (Engine.ofRegistry p).run :=
  goes_maintains p (maintains_of_passes p (passes_idle p hp))

theorem goes_upholds_bind {β : Type} (p : Program Engine.interface α)
    (f : α → Program Engine.interface β) (hp : Goes Upholds p) (hf : ∀ a, Goes Upholds (f a)) :
    Goes Upholds (p >>= f) := goes_bind _ upholds_trans p f hp hf

theorem goes_upholds_then {β : Type} (p : Engine α) (f : α → Engine β) (hp : Goes Upholds p.run)
    (hf : ∀ a, Goes Upholds (f a).run) : Goes Upholds (p >>= f).run :=
  goes_then _ upholds_refl upholds_trans p f hp hf

theorem goes_upholds_pure (a : α) : Goes Upholds (pure a) := upholds_refl

theorem compositional_upholds : Engine.Compositional fun _ p => Goes Upholds p :=
  compositional_goes _ upholds_refl upholds_trans

end Goes

/-! ### Actions -/

theorem goes_setFilter (target : Target) (filter : FilterSpec) (entry : Nat → StaticEntry)
    (hentry : ∀ id, (entry id).policyId = id)
    (hstorable : ∀ id, id ≤ Number.maxWord → (entry id).Storable) :
    Goes Upholds (setFilter target filter entry).run := by
  intro s
  have heffort := effort_run (setFilter target filter entry).run s
  refine ⟨heffort, fun hle hs => ?_⟩
  rcases hs.bound with ⟨n, hn, hledger⟩
  rcases run_setFilter s hs.unrefused n hledger (by omega) target filter entry hentry with
    ⟨hafter, hrun⟩
  rw [hrun]
  have hsame : s.store.SameRecords (withEntry s.store target.id (n + 1) (entry (n + 1))) :=
    fun name => get?_withEntry _ _ _ _ _ (recordKey_ne_counterKey name)
      (recordKey_ne_reservationKey name) (recordKey_ne_pipelineKey name _)
  have hlegible : (withEntry s.store target.id (n + 1) (entry (n + 1))).Legible :=
    Store.legible_exec _ _ (tidy_putStatic _ _ _ (hstorable (n + 1) (by omega)))
      (Store.legible_exec _ _ tidy_nextId hs.legible)
  refine ⟨hs.unrefused, ⟨n + 1, ?_, hafter⟩, hlegible, Store.filed_sameRecords _ hs.filed _ hsame,
    fun id hid => ?_, hs.sized⟩
  · -- The id that is taken is paid for by the call to the storage side.
    simp only [effort] at hn
    simp only [effort, withStorage, withStore, StorageSide.receive, List.length_append,
      List.length_singleton]
    omega
  · rw [store_withStorage, store_withStore, Store.record?_sameRecords _ _ hsame]
    exact hs.recorded id hid

/-- An action keeps the store in order, whatever the storage side answers. -/
theorem goes_dispatch (target : Target) (action : FilterAction)
    (objectFilter : Option ObjectFilter) (hsized : Engine.Sized objectFilter) :
    Goes Upholds (Engine.dispatch target action objectFilter).run := by
  refine goes_upholds_then _ _ (goes_idle _ (idle_requireFilter _)) fun filter => ?_
  cases action.verb with
  | set =>
    exact goes_setFilter target filter
      (fun id => Engine.newEntry id filter.name action objectFilter) (fun _ => rfl)
      fun id hid => Engine.storable_newEntry id filter.name action objectFilter hid hsized
  | delete =>
    refine goes_upholds_then _ _ (goes_plain _ ⟨trivial, fun _ => trivial⟩) fun _ => ?_
    refine goes_upholds_then _ _ (goes_idle _ (idle_deleteMatching _ _)) fun _ => ?_
    exact goes_upholds_pure _

/-! ### Starting monitors -/

/-- A monitor may be started for a record. -/
theorem upholds_started (s : Session) (id : Nat) (condition : Condition) (binding : MonitorBinding)
    (hrecord : s.store.record? id ≠ none) (hsized : Engine.Sized binding.objectFilter) :
    Upholds s (s.withMonitors (s.monitors.started id condition binding)) := by
  have heffort : (s.withMonitors (s.monitors.started id condition binding)).effort =
      s.effort + 1 := rfl
  refine ⟨by omega, fun _ hs => ?_⟩
  rcases hs.bound with ⟨n, hn, hledger⟩
  refine ⟨hs.unrefused, ⟨n, by omega, hledger⟩, hs.legible, hs.filed, fun other hother => ?_,
    fun serial task htask => ?_⟩
  · rcases MonitorTable.isLive_started _ id condition binding other hother with rfl | hlive
    · exact hrecord
    · exact hs.recorded other hlive
  · rcases MonitorTable.binding_started _ id condition binding serial task htask with hnew | hold
    · rw [hnew]
      exact hsized
    · exact hs.sized serial task hold

theorem run_spawn_of_isLive (s : Session) (r : PolicyRecord) (binding : MonitorBinding)
    (condition : Condition) (hlive : s.monitors.isLive r.id = true)
    (hcondition : Condition.parse r.conditionText = .ok condition) :
    s.run (Engine.spawn r binding).run = (.error (.spawnFailed r.id .alreadyRunning), s) := by
  have hask := run_lift s (Engine.ask (.launch r.id condition binding))
  rw [run_launch, MonitorTable.launch, if_pos hlive] at hask
  rw [Engine.spawn, hcondition]
  exact run_bind_ok s _ _ _ _ hask

/-- Starting the monitor of a record again leaves the store alone, whether it succeeds or not. -/
theorem upholds_spawnRecorded (s : Session) (r : PolicyRecord)
    (hrecord : s.store.record? r.id ≠ none) :
    Upholds s (s.run (Engine.spawnRecorded r).run).2 ∧
      (s.run (Engine.spawnRecorded r).run).2.store = s.store := by
  rw [Engine.spawnRecorded]
  cases hbinding : Engine.recordedBinding r with
  | error fault => exact ⟨upholds_refl s, rfl⟩
  | ok binding =>
    have hsized := Engine.sized_of_storable binding.objectFilter
      (PolicyRecord.storable_of_recordedBinding r binding hbinding)
    dsimp only
    rw [run_discard]
    cases hcondition : Condition.parse r.conditionText with
    | error fault =>
      rw [Engine.spawn, hcondition]
      exact ⟨upholds_refl s, rfl⟩
    | ok condition =>
      cases hlive : s.monitors.isLive r.id with
      | true =>
        rw [run_spawn_of_isLive s r binding condition hlive hcondition]
        exact ⟨upholds_refl s, rfl⟩
      | false =>
        rw [run_spawn s r binding condition hlive hcondition]
        exact ⟨upholds_started s r.id condition binding hrecord hsized, rfl⟩

theorem upholds_respawn (s : Session) (id : Nat) :
    Upholds s (s.run (Engine.respawn id).run).2 := by
  refine ⟨effort_run _ s, fun hle hs => ?_⟩
  cases hlive : s.monitors.isLive id with
  | true =>
    rw [run_respawn_of_live s id hlive]
    exact hs
  | false =>
    have hrun := run_respawn_of_not_isLive s hs.unrefused hs.filed id hlive
    cases hr : s.store.record? id with
    | none =>
      rw [hr] at hrun
      rw [hrun]
      exact hs
    | some r =>
      have hid := (Store.get?_of_record? _ hs.filed id r hr).2.1
      have hspawn := (upholds_spawnRecorded s r (by rw [hid, hr]; simp)).1
      -- The record is marked only after its monitor has been started.
      have hmark : Goes Upholds (if !r.alive then
          discard (Engine.ofRegistry (setAlive id true)) else pure () : Engine Unit).run := by
        cases r.alive with
        | true => exact goes_upholds_pure _
        | false =>
          exact goes_upholds_then _ _ (goes_maintains _ (maintains_setAlive id true))
            fun _ => goes_upholds_pure _
      have hall : Upholds s (s.run (Engine.respawn id).run).2 := by
        rw [hr] at hrun
        rw [hrun]
        dsimp only
        rw [run_bindCont]
        refine upholds_trans _ _ _ hspawn ?_
        cases (s.run (Engine.spawnRecorded r).run).1 with
        | ok _ => exact hmark _
        | error e => exact upholds_refl _
      exact hall.stocked hle hs

theorem upholds_reloadRecords (records : List PolicyRecord) (report : Engine.ReloadReport)
    (s : Session) (hrecords : ∀ r ∈ records, s.store.record? r.id ≠ none) :
    Upholds s (s.run (Engine.reloadRecords records report).run).2 := by
  induction records generalizing report s with
  | nil => exact upholds_refl s
  | cons r rest ih =>
    have hrest : ∀ r' ∈ rest, s.store.record? r'.id ≠ none := fun r' hr' =>
      hrecords r' (List.mem_cons_of_mem _ hr')
    cases hlive : s.monitors.isLive r.id with
    | true =>
      rw [run_reloadRecords_of_isLive s r rest report hlive]
      exact ih _ s hrest
    | false =>
      rcases upholds_spawnRecorded s r (hrecords r List.mem_cons_self) with ⟨hspawn, hstore⟩
      generalize hrun : s.run (Engine.spawnRecorded r).run = outcome at hspawn hstore
      rcases outcome with ⟨result, t⟩
      rw [run_reloadRecords_of_spawn s t r rest report hlive result hrun]
      refine upholds_trans _ _ _ hspawn (ih _ t fun r' hr' => ?_)
      rw [show t.store = s.store from hstore]
      exact hrest r' hr'

theorem upholds_reload (s : Session) : Upholds s (s.run Engine.reload.run).2 := by
  refine ⟨effort_run _ s, fun hle hs => ?_⟩
  rcases on_scanDynamic s.store hs.filed with ⟨records, hscan, -, hmem⟩
  have hfound := run_ofRegistry s scanDynamic hs.unrefused
  rw [hscan] at hfound
  have hall : Upholds s (s.run Engine.reload.run).2 := by
    rw [Engine.reload, run_bind_ok s _ _ _ _ hfound]
    refine upholds_reloadRecords _ _ _ fun r hr => ?_
    rw [(hmem r).mp (List.mem_filter.mp hr).1]
    simp
  exact hall.stocked hle hs

/-! ### Stopping monitors -/

/-- A policy whose monitor has been stopped is not live. -/
theorem not_isLive_detach (s : Session) (id : Nat) :
    (s.run (Engine.detach id)).2.monitors.isLive id = false := by
  have hlive : (s.run (Engine.detach id)).2.monitors.live = (s.monitors.take id).2.live := by
    have htake : s.run (Engine.ask (.take id)) =
        ((s.monitors.take id).1, s.withMonitors (s.monitors.take id).2) := rfl
    have hrun : s.run (Engine.detach id) = _ := run_bind s (Engine.ask (.take id)) _
    rw [hrun, htake]
    cases (s.monitors.take id).1 <;> rfl
  rw [Bool.eq_false_iff]
  intro hcontra
  rw [MonitorTable.isLive, hlive] at hcontra
  exact (MonitorTable.isLive_take _ id id hcontra).1 rfl

/-- The record of a policy that is not live may be deleted. -/
theorem upholds_deleteDynamic (s : Session) (id : Nat) (hlive : s.monitors.isLive id = false) :
    Upholds s (s.run (Engine.ofRegistry (deleteDynamic id)).run).2 := by
  refine ⟨effort_run _ s, fun _ hs => ?_⟩
  rw [run_ofRegistry s _ hs.unrefused]
  rcases hs.bound with ⟨n, hn, hledger⟩
  rcases (on_sparing _ (sparing_deleteDynamic id) s.store n hledger).1 with ⟨m, hm, hafter⟩
  have hrefiled := refiled_deleteDynamic s.store hs.filed id
  refine ⟨hs.unrefused, ⟨m, Nat.le_trans hm hn, hafter⟩,
    legible_on _ (makes_tidy_of_sparing _ (sparing_deleteDynamic id)) _ hs.legible,
    Store.filed_refiled _ hs.filed _ _ _ hrefiled (fun _ hr => by cases hr), fun other hother => ?_,
    hs.sized⟩
  have hne : other ≠ id := by
    rintro rfl
    rw [monitors_withStore, hlive] at hother
    cases hother
  rw [store_withStore, Store.record?_refiled _ _ _ _ _ hrefiled (fun _ hr => by cases hr),
    if_neg hne]
  exact hs.recorded other hother

theorem goes_remove (id : Nat) : Goes Upholds (Engine.remove id).run := by
  intro s
  have hdetach := run_lift s (Engine.detach id)
  rw [Engine.remove, run_bind_ok s _ _ _ _ hdetach, snd_run_bind_pure]
  exact upholds_trans _ _ _ (goes_plain _ (Engine.plain_detach id) s)
    (upholds_deleteDynamic _ id (not_isLive_detach s id))

theorem goes_setAlive (id : Nat) (alive : Bool) :
    Goes Upholds (discard (Engine.ofRegistry (setAlive id alive)).run) :=
  goes_upholds_bind _ _ (goes_maintains _ (maintains_setAlive id alive))
    fun _ => goes_upholds_pure _

theorem goes_retire (settings : Engine.Settings) (id : Nat) :
    Goes Upholds (Engine.retire settings id) := by
  intro s
  have hdetach := goes_plain _ (Engine.plain_detach id) s
  have hlive := not_isLive_detach s id
  rw [Engine.retire, run_bind]
  refine upholds_trans _ _ _ hdetach ?_
  cases (s.run (Engine.detach id)).1 with
  | false => exact upholds_refl _
  | true =>
    simp only [if_true]
    cases settings.retirement with
    | markInactive => exact goes_setAlive id false _
    | delete =>
      dsimp only
      rw [run_discard_program]
      exact upholds_deleteDynamic _ id hlive

theorem goes_afterPersistentFire (settings : Engine.Settings) (id : Nat) :
    Goes Upholds (Engine.afterPersistentFire settings id) := by
  rw [Engine.afterPersistentFire]
  cases settings.aliveAfterFire with
  | true => exact goes_upholds_pure _
  | false => exact goes_setAlive id false

/-! ### Deployments -/

section Deploy

variable (settings : Engine.Settings)

/-- A record that is stored under a new id, with its monitor. -/
theorem stocked_created (s : Session) (hs : s.Stocked) (n : Nat) (hn : n ≤ s.effort)
    (hledger : s.store.Ledger n) (hroom : n < Number.maxWord) (r : PolicyRecord)
    (hid : r.id = n + 1) (hr : r.Storable) (binding : MonitorBinding) (condition : Condition)
    (hsized : Engine.Sized binding.objectFilter) : (s.created r binding condition).Stocked := by
  rcases Store.on_putNew s.store n hledger r hroom hid with ⟨-, hafter, hrefiled⟩
  have hrecord : ∀ id, (s.store.withRecord r).record? id =
      if id = r.id then some r else s.store.record? id := fun id =>
    Store.record?_refiled _ _ _ _ _ hrefiled fun _ heq => by cases heq; exact hr
  refine ⟨hs.unrefused, ⟨n + 1, by rw [effort_created]; omega, hafter⟩, ?_, ?_, fun id hlive => ?_,
    fun serial task htask => ?_⟩
  · exact Store.legible_exec _ _ (tidy_putDynamic r) (Store.legible_exec _ _ tidy_nextId hs.legible)
  · exact Store.filed_refiled _ hs.filed _ _ _ hrefiled fun _ heq => by cases heq; exact ⟨hr, rfl⟩
  · rw [created, store_withMonitors, store_withStore, hrecord]
    split
    · simp
    · rename_i hother
      rcases MonitorTable.isLive_started _ r.id condition binding id hlive with heq | hold
      · exact absurd heq hother
      · exact hs.recorded id hold
  · rcases MonitorTable.binding_started _ r.id condition binding serial task htask with hnew | hold
    · rw [hnew]
      exact hsized
    · exact hs.sized serial task hold

/-- The pairs of a rule become policies one after the other. -/
theorem stocked_deployPairs (line : String) (rule : Rule) (hrule : Rule.parse line = .ok rule)
    (conditionText : String) (condition : Condition)
    (hcondition : Condition.parse conditionText = .ok condition)
    (pairs : List (Target × FilterAction × Nat)) (done : Engine.Deployment) (s : Session)
    (hs : s.Stocked) (hpairs : ∀ k pair, pairs[k]? = some pair → pair.2.2 ≤ s.effort + k)
    (heffort : (s.run (Engine.deployPairs settings line conditionText rule pairs
      done).run).2.effort < Number.maxWord) :
    (s.run (Engine.deployPairs settings line conditionText rule pairs done).run).2.Stocked := by
  induction pairs generalizing done s with
  | nil => exact hs
  | cons pair rest ih =>
    have hle := effort_run (Engine.deployPairs settings line conditionText rule (pair :: rest)
      done).run s
    rcases hs.bound with ⟨n, hn, hledger⟩
    have hindex := hpairs 0 pair rfl
    have hroom : n < Number.maxWord := by omega
    -- Every live monitor has a record, and there is none under the next id.
    have hlive : s.monitors.isLive (n + 1) = false := by
      rw [Bool.eq_false_iff]
      exact fun hlive => hs.recorded (n + 1) hlive
        (Store.record?_of_fresh s.store n hledger (n + 1) (Nat.lt_succ_self n))
    have hrun := run_deployPairs_start settings line rule conditionText s hs.unrefused n hledger
      hroom condition hcondition hlive pair rest done
    have hstorable := Engine.storable_newRecord settings line rule hrule pair (n + 1) conditionText
      (by omega) (by omega)
    have hsized := Engine.sized_of_parse line rule hrule
    rw [hrun] at heffort ⊢
    refine ih _ _ (stocked_created s hs n hn hledger hroom _ rfl hstorable _ condition hsized)
      (fun k other hother => ?_) heffort
    have hplace := hpairs (k + 1) other hother
    rw [effort_created]
    omega

theorem goes_deployPairs (line : String) (rule : Rule) (hrule : Rule.parse line = .ok rule)
    (conditionText : String) (hcondition : rule.conditionText = some conditionText)
    (targets : List Target) :
    Goes Upholds (Engine.deployPairs settings line conditionText rule (Engine.pairs rule targets)
      {}).run := by
  intro s
  refine ⟨effort_run _ s, fun heffort hs => ?_⟩
  rcases Engine.parse_conditionText line rule hrule conditionText hcondition with
    ⟨condition, hread⟩
  refine stocked_deployPairs settings line rule hrule conditionText condition hread _ _ s hs
    (fun k pair hpair => ?_) heffort
  have hplace := (Engine.place_pairs rule targets k pair hpair).2.2
  omega

theorem goes_deploy (directory : Directory) (text : String) :
    Goes Upholds (Engine.deploy directory settings text) := by
  refine compositional_upholds.holds_deploy directory settings (fun line => ?_) text
  refine compositional_upholds.holds_deployLine directory settings line
    (fun rule => goes_idle _ (idle_check directory rule)) ?_ ?_
  · intro rule conditionText targets hrule hcondition
    exact goes_deployPairs settings line rule hrule conditionText hcondition targets
  · intro rule target action hrule
    exact goes_dispatch target action _ (Engine.sized_of_parse line rule hrule)

end Deploy

/-! ### Monitors and operations -/

section Operations

variable (settings : Engine.Settings)

theorem goes_turn (handle : MonitorHandle) (binding : MonitorBinding)
    (hsized : Engine.Sized binding.objectFilter) (m : Monitor) (sample : Sample) :
    Goes Upholds (Engine.turn settings handle binding m sample) :=
  compositional_upholds.holds_turn settings handle binding
    (goes_plain (Engine.ask (.isHalted handle.serial)) ⟨trivial, fun _ => trivial⟩)
    (goes_dispatch _ _ _ hsized) (goes_retire settings _) (goes_afterPersistentFire settings _) m
    sample

theorem upholds_serve (handle : MonitorHandle) (binding : MonitorBinding)
    (hsized : Engine.Sized binding.objectFilter) (queue : List Sample) (m : Monitor)
    (s : Session) : Upholds s (serve settings handle binding queue m s).2 :=
  goes_serve Upholds upholds_refl upholds_trans settings handle binding
    (goes_turn settings handle binding hsized) queue m s

theorem upholds_runTask (s : Session) (serial : Nat) :
    Upholds s (s.runTask settings serial) := by
  rw [runTask]
  cases htask : s.monitors.tasks.get? serial with
  | none => exact upholds_refl s
  | some task =>
    dsimp only
    split
    · exact upholds_refl s
    · have hserve := fun hsized =>
        upholds_serve settings task.handle task.binding hsized task.queue task.monitor s
      have hgrows := (core_serve settings task.handle task.binding task.queue task.monitor s).1
      generalize serve settings task.handle task.binding task.queue task.monitor s = outcome at *
      rcases outcome with ⟨⟨m, goesOn⟩, t⟩
      refine ⟨hgrows, fun heffort hs => ?_⟩
      have hput : Upholds t (t.putTask serial m goesOn) :=
        upholds_within t _ (MonitorTable.within_adjust _ serial _ fun _ => rfl)
      have hall := upholds_trans _ _ _ (hserve (hs.sized serial task htask)) hput
      exact hall.stocked heffort hs

/-- All monitors read what they have to read. -/
theorem upholds_settle (s : Session) : Upholds s (s.settle settings) := by
  rw [settle_eq]
  refine upholds_trans _ _ _ (upholds_within s _ ?_)
    (goes_runTasks Upholds upholds_refl upholds_trans settings (upholds_runTask settings) _ _)
  exact MonitorTable.within_of_tasks _ _ rfl (fun _ hlive => hlive) rfl

variable (directory : Directory)

theorem upholds_program (s : Session) (operation : Operation) :
    Upholds s (s.run (operation.program directory settings)).2 := by
  cases operation with
  | deploy text =>
    rw [Operation.program, run_discard_program]
    exact goes_deploy settings directory text s
  | deleteStatic targetId id =>
    rw [Operation.program, run_discard_program]
    refine goes_idle _ (makes_bind _ _ _ (idle_deleteStatic targetId id) fun existed => ?_) s
    cases existed with
    | true => exact makes_pure _ _
    | false => exact makes_throw _ _
  | deleteDynamic id =>
    rw [Operation.program, run_discard_program]
    exact goes_remove id s
  | updateStatic targetId id patch =>
    rw [Operation.program, run_discard_program]
    refine goes_maintains _ (maintains_of_passes _
      (passes_bind _ _ (passes_updateStatic targetId id patch) fun entry => ?_)) s
    refine passes_idle _ (makes_bind _ _ _ ?_ fun name => makes_pure _ _)
    exact makes_bind _ _ _ (idle_names directory) fun names => makes_pure _ _
  | respawn id =>
    rw [Operation.program, run_discard_program]
    exact upholds_respawn s id
  | reload =>
    rw [Operation.program, run_discard_program]
    exact upholds_reload s
  | shutdown => exact goes_plain _ Engine.plain_shutdown s
  | ingest text =>
    rw [Operation.program, run_discard_program]
    exact goes_plain _ (Engine.plain_ingestLines _ _) s

/-- Every operation keeps the store in order, whatever the directory. -/
theorem upholds_perform (s : Session) (operation : Operation) :
    Upholds s (s.perform directory settings operation) :=
  upholds_trans _ _ _ (upholds_program settings directory s operation) (upholds_settle settings _)

end Operations

/-- A session that begins has its store in order. -/
theorem stocked_of_fresh (s : Session) (h : s.Fresh) : s.Stocked where
  unrefused := h.unrefused
  bound := ⟨0, Nat.zero_le _, Store.ledger_of_vacant _ h.vacant⟩
  legible := fitting_of_fresh _ s h
  filed := by
    intro name value hvalue
    rw [h.vacant _ (Or.inr (Or.inr (Or.inr ⟨name, rfl⟩)))] at hvalue
    cases hvalue
  recorded := by
    intro id hlive
    rw [h.monitors] at hlive
    cases hlive
  sized := by
    intro serial task htask
    rw [h.monitors] at htask
    cases htask

end Session

end StoragePolicy
