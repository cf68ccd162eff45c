import StoragePolicy.Proofs.Engine.Static
import StoragePolicy.Proofs.Registry.Scan

/-!
# Starting monitors again

A monitor is started again from its record alone. On a sound session that cannot fail, since every
record describes a monitor. A respawn starts one monitor and marks its record as alive; a reload
starts the monitors of all records that are alive, as far as they do not run, and leaves the store
as it is.

## Main definitions

* `Session.Revives`: The deeds of a restart.

## Theorems

* `run_spawnRecorded`: A record that describes a monitor gets it.
* `reaches_respawn`: A respawn revives at most one policy.
* `run_reload`: A reload finds the records that are alive and starts their monitors.
-/

namespace StoragePolicy

open Registry

namespace Session

/-- A record that describes a monitor gets it. -/
theorem run_spawnRecorded (s : Session) (r : PolicyRecord) (binding : MonitorBinding)
    (condition : Condition) (hdescribes : r.Describes binding condition)
    (hlive : s.monitors.isLive r.id = false) :
    s.run (Engine.spawnRecorded r).run =
      (.ok (), s.withMonitors (s.monitors.started r.id condition binding)) := by
  rw [Engine.spawnRecorded, hdescribes.binding]
  dsimp only
  rw [run_discard, run_spawn s r binding condition hlive hdescribes.condition]
  rfl

/-- Reviving a policy, whatever has been done to its record meanwhile, is a deed. -/
theorem does_revive (s : Session) (hs : s.Sound) (id : Nat) (r : PolicyRecord)
    (hr : s.store.record? id = some r) (hlive : s.monitors.isLive id = false) (d : Store)
    (hcatalog : s.store.SameCatalog d) (hstore : s.store.Refiled d id (some (r.marked true)))
    (hlegible : d.Legible) (hledger : ∃ n, d.Ledger n) (binding : MonitorBinding)
    (condition : Condition) (hdescribes : r.Describes binding condition) :
    Does (.revive id) s
        ((s.withMonitors (s.monitors.started id condition binding)).withStore d) ∧
      ((s.withMonitors (s.monitors.started id condition binding)).withStore d).Sound := by
  have hdoes : Does (.revive id) s
      ((s.withMonitors (s.monitors.started id condition binding)).withStore d) :=
    ⟨hcatalog, hlive, r, hr, hstore, binding, condition, hdescribes, rfl⟩
  exact ⟨hdoes, sound_of_effect s _ hs _ hdoes.effect hs.unrefused hlegible hledger⟩

theorem run_respawn_of_live (s : Session) (id : Nat) (hlive : s.monitors.isLive id = true) :
    s.run (Engine.respawn id).run = (.error (.spawnFailed id .alreadyRunning), s) := by
  have hask := run_lift s (Engine.ask (.isLive id))
  rw [run_isLive, hlive] at hask
  exact run_bind_ok s _ _ _ _ hask

/-- A respawn of a policy that is not live goes by what its record says. -/
theorem run_respawn_of_not_isLive (s : Session) (hopen : s.Open) (hfiled : s.store.Filed)
    (id : Nat) (hlive : s.monitors.isLive id = false) :
    s.run (Engine.respawn id).run = s.run (match s.store.record? id with
      | none => throw (.unknownRecord id)
      | some r => do
        Engine.spawnRecorded r
        if !r.alive then discard (Engine.ofRegistry (setAlive id true)) : Engine Unit).run := by
  have hask := run_lift s (Engine.ask (.isLive id))
  rw [run_isLive, hlive] at hask
  have hget := run_ofRegistry s (getDynamic id) hopen
  rw [on_getDynamic s.store hfiled id] at hget
  exact (run_bind_ok s _ _ _ _ hask).trans (run_bind_ok s _ _ _ _ hget)

/-- What a respawn does for a policy that is not live. -/
theorem run_respawn (s : Session) (hs : s.Sound) (id : Nat)
    (hlive : s.monitors.isLive id = false) :
    (s.store.record? id = none ∧
        s.run (Engine.respawn id).run = (.error (.unknownRecord id), s)) ∨
      ∃ r binding condition d, s.store.record? id = some r ∧ r.Describes binding condition ∧
        s.store.SameCatalog d ∧ s.store.Refiled d id (some (r.marked true)) ∧ d.Legible ∧
        (∀ n, s.store.Ledger n → ∃ m, m ≤ n ∧ d.Ledger m) ∧
        s.run (Engine.respawn id).run =
          (.ok (), (s.withMonitors (s.monitors.started id condition binding)).withStore d) := by
  rw [run_respawn_of_not_isLive s hs.unrefused hs.filed id hlive]
  cases hr : s.store.record? id with
  | none => exact Or.inl ⟨rfl, rfl⟩
  | some r =>
    dsimp only
    rcases hs.readable id r hr with ⟨binding, condition, hdescribes⟩
    have hid := (Store.get?_of_record? _ hs.filed id r hr).2.1
    have hspawn := run_spawnRecorded s r binding condition hdescribes (by rw [hid, hlive])
    rw [hid] at hspawn
    rw [run_bind_ok s _ _ _ _ hspawn]
    cases halive : r.alive with
    | true =>
      -- The record is alive already, and nothing is stored.
      have hmarked : r.marked true = r := by
        rw [PolicyRecord.marked, ← halive]
      refine Or.inr ⟨r, binding, condition, s.store, rfl, hdescribes, fun _ _ => rfl, ?_,
        hs.legible, fun n hn => ⟨n, Nat.le_refl n, hn⟩, rfl⟩
      rw [hmarked]
      exact Store.refiled_self s.store hs.filed id (some r) hr
    | false =>
      have hsparing := on_sparing _ (sparing_setAlive id true) s.store
      rcases hs.ledger with ⟨n, hledger⟩
      have hset := (on_setAlive s.store hs.filed id true).2
      rw [hr] at hset
      have htidy := legible_on _ (makes_tidy_of_sparing _ (sparing_setAlive id true)) s.store
        hs.legible
      refine Or.inr ⟨r, binding, condition, _, rfl, hdescribes, (hsparing n hledger).2, hset, htidy,
        fun n hn => (hsparing n hn).1, ?_⟩
      have hmark := run_discard (s.withMonitors (s.monitors.started id condition binding))
        (Engine.ofRegistry (setAlive id true))
      rw [run_ofRegistry (s.withMonitors (s.monitors.started id condition binding)) _
        hs.unrefused, store_withMonitors, (on_setAlive s.store hs.filed id true).1] at hmark
      exact hmark

/-- A respawn revives at most one policy. -/
theorem reaches_respawn (kind : Deed → Prop) (s : Session) (id : Nat) (hkind : kind (.revive id)) :
    Reaches kind s (s.run (Engine.respawn id).run).2 := by
  refine ⟨effort_run _ s, fun _ hs => ?_⟩
  cases hlive : s.monitors.isLive id with
  | true =>
    rw [run_respawn_of_live s id hlive]
    exact ⟨hs, .refl s⟩
  | false =>
    rcases run_respawn s hs.toSound id hlive with ⟨-, hrun⟩ |
      ⟨r, binding, condition, d, hr, hdescribes, hcatalog, hstore, hlegible, hledger, hrun⟩
    · rw [hrun]
      exact ⟨hs, .refl s⟩
    · rw [hrun]
      rcases hs.bound with ⟨n, hn, hbefore⟩
      rcases hledger n hbefore with ⟨m, hm, hafter⟩
      rcases does_revive s hs.toSound id r hr hlive d hcatalog hstore hlegible ⟨m, hafter⟩ binding
        condition hdescribes with ⟨hdoes, hsound⟩
      have hbound : m ≤ s.effort + 1 := by omega
      exact ⟨⟨hsound, m, hbound, hafter⟩, .step _ s _ _ hkind hdoes hsound (.refl _)⟩

/-- The deeds of a restart. -/
def Revives : Deed → Prop
  | .revive _ => True
  | _ => False

/-- Of records that are alive the first gets its monitor, if it does not run. -/
theorem run_reloadRecords_first (r : PolicyRecord) (rest : List PolicyRecord)
    (report : Engine.ReloadReport) (s : Session) (hs : s.Sound)
    (hr : s.store.record? r.id = some r) (halive : r.alive = true) :
    ∃ monitors, s.run (Engine.reloadRecords (r :: rest) report).run =
        (s.withMonitors monitors).run (Engine.reloadRecords rest
          { report with
            aliveRecords := report.aliveRecords + 1
            spawned := report.spawned ++ [r.id] }).run ∧
      (s.withMonitors monitors).Sound ∧ Path Revives s (s.withMonitors monitors) ∧
      ∀ id, monitors.isLive id = true ↔ s.monitors.isLive id = true ∨ id = r.id := by
  cases hlive : s.monitors.isLive r.id with
  | true =>
    refine ⟨s.monitors, run_reloadRecords_of_isLive s r rest report hlive, hs, .refl s,
      fun id => ⟨Or.inl, ?_⟩⟩
    rintro (h | rfl)
    · exact h
    · exact hlive
  | false =>
    rcases hs.readable r.id r hr with ⟨binding, condition, hdescribes⟩
    -- The record is alive already, so that to mark it changes nothing.
    have hmarked : r.marked true = r := by
      rw [PolicyRecord.marked, ← halive]
    have hstay : s.store.Refiled s.store r.id (some (r.marked true)) := by
      rw [hmarked]
      exact Store.refiled_self s.store hs.filed r.id (some r) hr
    rcases does_revive s hs r.id r hr hlive s.store (fun _ _ => rfl) hstay hs.legible hs.ledger
      binding condition hdescribes with ⟨hdoes, hsound⟩
    refine ⟨s.monitors.started r.id condition binding, ?_, hsound,
      .step (.revive r.id) s _ _ trivial hdoes hsound (.refl _), fun id => ?_⟩
    · exact run_reloadRecords_of_spawn s _ r rest report hlive _
        (run_spawnRecorded s r binding condition hdescribes hlive)
    · rw [MonitorTable.isLive_iff, MonitorTable.isLive_iff]
      simp only [MonitorTable.live_started]
      by_cases hid : id = r.id
      · simp [hid]
      · simp [hid]

/-- The monitors of records that are alive are started, as far as they do not run. -/
theorem run_reloadRecords (records : List PolicyRecord) (report : Engine.ReloadReport)
    (s : Session) (hs : s.Sound)
    (hrecords : ∀ r ∈ records, s.store.record? r.id = some r ∧ r.alive = true) :
    ∃ monitors, s.run (Engine.reloadRecords records report).run =
        (.ok { report with
          aliveRecords := report.aliveRecords + records.length
          spawned := report.spawned ++ records.map PolicyRecord.id }, s.withMonitors monitors) ∧
      (s.withMonitors monitors).Sound ∧ Path Revives s (s.withMonitors monitors) ∧
      ∀ id, monitors.isLive id = true ↔
        s.monitors.isLive id = true ∨ id ∈ records.map PolicyRecord.id := by
  induction records generalizing report s with
  | nil =>
    refine ⟨s.monitors, ?_, hs, .refl s, by simp⟩
    simp only [List.length_nil, Nat.add_zero, List.map_nil, List.append_nil]
    rfl
  | cons r rest ih =>
    rcases hrecords r List.mem_cons_self with ⟨hr, halive⟩
    rcases run_reloadRecords_first r rest report s hs hr halive with
      ⟨first, hrun, hsound, hpath, hlive⟩
    -- The store is as before, and so the other records are still there.
    rcases ih _ (s.withMonitors first) hsound
      (fun other hother => hrecords other (List.mem_cons_of_mem _ hother)) with
      ⟨monitors, hrest, hsound', hpath', hlive'⟩
    refine ⟨monitors, ?_, hsound', path_trans _ _ _ hpath hpath', fun id => ?_⟩
    · rw [hrun, hrest]
      simp only [List.length_cons, List.map_cons, List.append_assoc, List.singleton_append,
        Nat.add_assoc, Nat.add_comm 1]
      rfl
    · rw [hlive', monitors_withMonitors, hlive, List.map_cons, List.mem_cons, or_assoc]

/-- A reload finds the records that are alive, in ascending order of their ids, and starts their
    monitors. The store stays as it is. -/
theorem run_reload (s : Session) (hs : s.Sound) :
    ∃ (records : List PolicyRecord) (monitors : MonitorTable),
      (records.map PolicyRecord.id).Pairwise (fun a b => a < b) ∧
      (∀ r, r ∈ records ↔ s.store.record? r.id = some r ∧ r.alive = true) ∧
      s.run Engine.reload.run =
        (.ok { aliveRecords := records.length, spawned := records.map PolicyRecord.id },
          s.withMonitors monitors) ∧
      (s.withMonitors monitors).Sound ∧ Path Revives s (s.withMonitors monitors) ∧
      ∀ id, monitors.isLive id = true ↔
        s.monitors.isLive id = true ∨ id ∈ records.map PolicyRecord.id := by
  rcases on_scanDynamic s.store hs.filed with ⟨records, hscan, hsorted, hmem⟩
  have hfound := run_ofRegistry s scanDynamic hs.unrefused
  rw [hscan] at hfound
  have halive : ∀ r, r ∈ records.filter PolicyRecord.alive ↔
      s.store.record? r.id = some r ∧ r.alive = true := by
    intro r
    rw [List.mem_filter, hmem]
  rcases run_reloadRecords (records.filter PolicyRecord.alive) {} s hs
    (fun r hr => (halive r).mp hr) with ⟨monitors, hrun, hsound, hpath, hlive⟩
  refine ⟨records.filter PolicyRecord.alive, monitors, ?_, halive, ?_, hsound, hpath, hlive⟩
  · exact hsorted.sublist ((List.filter_sublist).map _)
  · refine (run_bind_ok s _ _ _ _ hfound).trans ?_
    refine hrun.trans ?_
    simp

end Session

end StoragePolicy
