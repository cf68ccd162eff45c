import StoragePolicy.Proofs.Engine.Static

/-!
# Stopping monitors

A monitor is stopped in three steps, on three tables: its policy is taken off the live ones, its
task is told to stop, and its observer is detached. Only then is its record marked or deleted. Taken
together with that, stopping a monitor is one deed. The shutdown stops all monitors and leaves their
records alone, so it is no deed: after it records are alive whose monitors do not run.

## Main definitions

* `Session.stopped`: The session after a policy has been dealt with.

## Theorems

* `run_detach`, `run_shutdown`: What stopping one monitor or all does to the tables.
* `reaches_remove`, `reaches_retire`, `reaches_afterPersistentFire`: What is done to a policy.
* `counted_shutdown`: The shutdown keeps a session sound.
-/

namespace StoragePolicy

open Registry

namespace Session

variable (s : Session)

theorem run_haltAll (handles : List MonitorHandle) :
    s.run (Engine.haltAll handles) = ((), s.withMonitors (s.monitors.haltAll handles)) := by
  induction handles generalizing s with
  | nil => rfl
  | cons handle rest ih =>
    have hrun : s.run (Engine.haltAll (handle :: rest)) =
        (s.withMonitors ((s.monitors.halt handle.serial).unsubscribe handle.target.tenantId
          handle.policyId)).run (Engine.haltAll rest) := rfl
    rw [hrun, ih]
    rfl

/-- Stopping the monitor of a policy tells whether there was one. -/
theorem run_detach (h : s.monitors.Consistent) (id : Nat) :
    s.run (Engine.detach id) =
      (s.monitors.isLive id, s.withMonitors (s.monitors.without id)) := by
  have htake : s.run (Engine.ask (.take id)) =
      ((s.monitors.take id).1, s.withMonitors (s.monitors.take id).2) := rfl
  refine (run_bind s (Engine.ask (.take id)) _).trans ?_
  rw [htake]
  cases hlive : s.monitors.live.get? id with
  | none =>
    have hnot := (MonitorTable.isLive_eq_false_iff _ id).mpr hlive
    rw [hnot, MonitorTable.without_of_not_isLive _ id hnot,
      MonitorTable.take_of_not_isLive _ id hnot]
    rfl
  | some serial =>
    have hlive' := (MonitorTable.isLive_iff _ id).mpr ⟨serial, hlive⟩
    rcases MonitorTable.take_of_live _ id h serial hlive with ⟨task, -, -, rfl, htaken⟩
    rw [hlive', MonitorTable.without, htaken]
    rfl

/-- Stopping all monitors. -/
theorem run_shutdown : s.run Engine.shutdown = ((), s.withMonitors s.monitors.emptied) := by
  have hrun : s.run Engine.shutdown =
      (s.withMonitors s.monitors.drain.2).run (Engine.haltAll s.monitors.drain.1) := rfl
  rw [hrun, run_haltAll]
  rfl

/-- The shutdown keeps a session sound, and no policy is live after it. -/
theorem counted_shutdown (hs : s.Counted) : (s.run Engine.shutdown).2.Counted ∧
    (s.run Engine.shutdown).2.store = s.store ∧
    ∀ id, (s.run Engine.shutdown).2.monitors.isLive id = false := by
  rw [run_shutdown]
  have hnone : ∀ id, s.monitors.emptied.isLive id = false := fun id =>
    (MonitorTable.isLive_eq_false_iff _ id).mpr (MonitorTable.live_emptied _ id)
  refine ⟨⟨⟨hs.unrefused, hs.ledger, hs.legible, hs.filed, hs.readable, ?_, ?_, ?_⟩, ?_⟩, rfl,
    hnone⟩
  · exact MonitorTable.consistent_emptied _ hs.tables
  · intro serial task htask
    rcases MonitorTable.core?_of_emptied _ serial task htask with ⟨old, halted, hold, rfl⟩
    exact hs.described serial old hold
  · intro id serial hlive
    rw [monitors_withMonitors, MonitorTable.live_emptied] at hlive
    exact nomatch hlive
  · rcases hs.bound with ⟨n, hn, hledger⟩
    refine ⟨n, ?_, hledger⟩
    have hnext := MonitorTable.nextSerial_emptied s.monitors
    simp only [effort, monitors_withMonitors, hnext] at hn ⊢
    exact hn

/-! ### What is done to a policy -/

theorem snd_run_bind_pure {α β : Type} (p : Engine α) (f : α → β) :
    (s.run (p >>= fun a => pure (f a)).run).2 = (s.run p.run).2 := by
  rw [run_bindCont]
  cases (s.run p.run).1 <;> rfl

section Deeds

variable (kind : Deed → Prop) (id : Nat)

/-- The session after the monitor of a policy has been stopped and something been done to the
    store. -/
def stopped (p : Registry Bool) : Session :=
  (s.withMonitors (s.monitors.without id)).withStore (on p s.store).2

theorem does_stopped (hs : s.Counted) (p : Registry Bool) (hp : p.run.Makes Store.Call.Sparing)
    (deed : Deed) (heffect : deed.Effect s (s.stopped id p)) :
    Does deed s (s.stopped id p) ∧ (s.stopped id p).Counted := by
  rcases hs.bound with ⟨n, hn, hledger⟩
  rcases on_sparing p hp s.store n hledger with ⟨⟨m, hm, hafter⟩, hcatalog⟩
  refine ⟨⟨hcatalog, heffect⟩,
    counted_of_effect s _ hs.toSound deed heffect hs.unrefused
      (legible_on p (makes_tidy_of_sparing p hp) s.store hs.legible) ⟨m, ?_, hafter⟩⟩
  have hnext := MonitorTable.nextSerial_without s.monitors id
  have heffort : (s.stopped id p).effort = s.effort := by
    simp only [effort, stopped, monitors_withStore, monitors_withMonitors, hnext]
    rfl
  omega

theorem does_remove (hs : s.Counted) :
    Does (.remove id) s (s.stopped id (deleteDynamic id)) ∧
      (s.stopped id (deleteDynamic id)).Counted :=
  does_stopped s id hs _ (sparing_deleteDynamic id) _
    ⟨refiled_deleteDynamic s.store hs.filed id, rfl⟩

theorem does_retire (hs : s.Counted) :
    Does (.retire id) s (s.stopped id (setAlive id false)) ∧
      (s.stopped id (setAlive id false)).Counted :=
  does_stopped s id hs _ (sparing_setAlive id false) _
    ⟨(on_setAlive s.store hs.filed id false).2, rfl⟩

/-- Removing a policy, be there one or not. -/
theorem reaches_remove (hkind : kind (.remove id)) :
    Reaches kind s (s.run (Engine.remove id).run).2 := by
  refine ⟨effort_run _ s, fun _ hs => ?_⟩
  have hdetach := run_lift s (Engine.detach id)
  rw [run_detach s hs.tables id] at hdetach
  have hrun : (s.run (Engine.remove id).run).2 = s.stopped id (deleteDynamic id) := by
    rw [Engine.remove, run_bind_ok s _ _ _ _ hdetach, snd_run_bind_pure]
    rw [run_ofRegistry (s.withMonitors (s.monitors.without id)) _ hs.unrefused]
    rfl
  rw [hrun]
  rcases does_remove s id hs with ⟨hdoes, hcounted⟩
  exact ⟨hcounted, .step _ s _ _ hkind hdoes hcounted.toSound (.refl _)⟩

/-- Retiring a policy; one that is not live is left alone. -/
theorem run_retire (settings : Engine.Settings) (hs : s.Sound) :
    s.run (Engine.retire settings id) = ((), if s.monitors.isLive id then
      match settings.retirement with
      | .markInactive => s.stopped id (setAlive id false)
      | .delete => s.stopped id (deleteDynamic id)
      else s) := by
  rw [Engine.retire, run_bind, run_detach s hs.tables id]
  cases hlive : s.monitors.isLive id with
  | false =>
    rw [MonitorTable.without_of_not_isLive _ id hlive]
    rfl
  | true =>
    simp only [if_true]
    cases settings.retirement with
    | markInactive =>
      dsimp only
      rw [run_discard_program,
        run_ofRegistry (s.withMonitors (s.monitors.without id)) _ hs.unrefused]
      rfl
    | delete =>
      dsimp only
      rw [run_discard_program,
        run_ofRegistry (s.withMonitors (s.monitors.without id)) _ hs.unrefused]
      rfl

theorem reaches_retire (settings : Engine.Settings)
    (hretire : settings.retirement = .markInactive → kind (.retire id))
    (hremove : settings.retirement = .delete → kind (.remove id)) :
    Reaches kind s (s.run (Engine.retire settings id)).2 := by
  refine ⟨effort_run _ s, fun _ hs => ?_⟩
  rw [run_retire s id settings hs.toSound]
  cases hlive : s.monitors.isLive id with
  | false => exact ⟨hs, .refl s⟩
  | true =>
    cases hretirement : settings.retirement with
    | markInactive =>
      rcases does_retire s id hs with ⟨hdoes, hcounted⟩
      exact ⟨hcounted, .step _ s _ _ (hretire hretirement) hdoes hcounted.toSound (.refl _)⟩
    | delete =>
      rcases does_remove s id hs with ⟨hdoes, hcounted⟩
      exact ⟨hcounted, .step _ s _ _ (hremove hretirement) hdoes hcounted.toSound (.refl _)⟩

theorem reaches_afterPersistentFire (settings : Engine.Settings)
    (hkind : settings.aliveAfterFire = false → kind (.rest id)) :
    Reaches kind s (s.run (Engine.afterPersistentFire settings id)).2 := by
  refine ⟨effort_run _ s, fun _ hs => ?_⟩
  rw [Engine.afterPersistentFire]
  cases hsetting : settings.aliveAfterFire with
  | true => exact ⟨hs, .refl s⟩
  | false =>
    simp only [Bool.not_false, if_true]
    rw [run_discard_program, run_ofRegistry s _ hs.unrefused]
    rcases hs.bound with ⟨n, hn, hledger⟩
    rcases on_sparing _ (sparing_setAlive id false) s.store n hledger with
      ⟨⟨m, hm, hafter⟩, hcatalog⟩
    have hdoes : Does (.rest id) s (s.withStore (on (setAlive id false) s.store).2) :=
      ⟨hcatalog, (on_setAlive s.store hs.filed id false).2, rfl⟩
    have hlegible := legible_on _ (makes_tidy_of_sparing _ (sparing_setAlive id false)) s.store
      hs.legible
    have hcounted := counted_of_effect s _ hs.toSound _ hdoes.effect hs.unrefused hlegible
      ⟨m, Nat.le_trans hm hn, hafter⟩
    exact ⟨hcounted, .step _ s _ _ (hkind hsetting) hdoes hcounted.toSound (.refl _)⟩

end Deeds

end Session

end StoragePolicy
