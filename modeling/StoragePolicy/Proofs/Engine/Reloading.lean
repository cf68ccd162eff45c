import Mathlib.Data.List.Nodup
import StoragePolicy.Engine.Monitoring
import StoragePolicy.Proofs.Engine.Running
import StoragePolicy.Proofs.Registry.Findings

/-!
# Reloading from any records

Whether a record gets its monitor depends on the record alone, unless the monitor runs already: from
its text a condition and a binding are read, or they are not. Since the records of a scan have
different ids, starting the monitor of one does not change what becomes of another. So what a reload
does is seen from the tables that it begins with, and a second one finds that there is nothing left
to do: what could be started runs, and what could not be started still cannot.

## Main definitions

* `PolicyRecord.plan`: The condition and the binding of a record, or why there is none.
* `MonitorTable.fault?`, `MonitorTable.revived`: What becomes of one record.
* `MonitorTable.Extends`: Tables to which monitors of some policies have been added.
* `Store.Due`, `ReloadReport.Accounts`: What a report has to account for, and that it does.

## Theorems

* `run_reloadRecords_of_distinct`: What becomes of some records is seen from the first tables.
* `extends_reviveAll`: Monitors are only added, one for each id at most.
* `reviveAll_reviveAll`: Doing it again changes nothing.
* `reload_of_scannable`: What a reload does, and a second one.
-/

namespace StoragePolicy

open Registry

/-- The condition and the binding with which the monitor of a record is started, or the error if the
    record does not describe any. -/
def PolicyRecord.plan (r : PolicyRecord) : Except EngineError (Condition × MonitorBinding) :=
  match Engine.recordedBinding r with
  | .error fault => .error (.spawnFailed r.id fault)
  | .ok binding =>
    match Condition.parse r.conditionText with
    | .error fault => .error (.spawnFailed r.id (.condition r.conditionText fault))
    | .ok condition => .ok (condition, binding)

namespace MonitorTable

/-- Why a record does not have its monitor after it was to be started, if it has none. -/
def fault? (t : MonitorTable) (r : PolicyRecord) : Option EngineError :=
  if t.isLive r.id then none
  else
    match r.plan with
    | .error e => some e
    | .ok _ => none

/-- The tables after the monitor of a record was to be started, unless it runs. -/
def revived (t : MonitorTable) (r : PolicyRecord) : MonitorTable :=
  if t.isLive r.id then t
  else
    match r.plan with
    | .error _ => t
    | .ok (condition, binding) => t.started r.id condition binding

/-- The tables after the monitors of some records were to be started. -/
def reviveAll (t : MonitorTable) (records : List PolicyRecord) : MonitorTable :=
  records.foldl revived t

/-- Tables to which monitors of some policies have been added. Tasks, live policies and observers
    that were there still are; what is observed anew is observed once, by a policy that was not
    live. -/
structure Extends (t u : MonitorTable) (ids : List Nat) : Prop where
  tasks : ∀ serial < t.nextSerial, u.tasks.get? serial = t.tasks.get? serial
  live : ∀ id serial, t.live.get? id = some serial → u.live.get? id = some serial
  isLive : ∀ id, u.isLive id = true ↔ t.isLive id = true ∨ id ∈ ids
  observers : ∀ tenantId, ∃ new, u.fanout.observers tenantId = t.fanout.observers tenantId ++ new ∧
    (new.map Prod.fst).Nodup ∧ ∀ o ∈ new, o.1 ∈ ids ∧ t.isLive o.1 = false
  ready : u.ready = t.ready
  nextSerial : t.nextSerial ≤ u.nextSerial
  consistent : t.Consistent → u.Consistent

theorem extends_of_live (t : MonitorTable) (ids : List Nat)
    (h : ∀ id ∈ ids, t.isLive id = true) : t.Extends t ids where
  tasks := fun _ _ => rfl
  live := fun _ _ hlive => hlive
  isLive := fun id => (or_iff_left_of_imp (h id)).symm
  observers := fun tenantId => ⟨[], (List.append_nil _).symm, .nil, by simp⟩
  ready := rfl
  nextSerial := Nat.le_refl _
  consistent := fun h => h

theorem extends_trans (t u v : MonitorTable) (ids ids' : List Nat) (h : t.Extends u ids)
    (h' : u.Extends v ids') : t.Extends v (ids ++ ids') where
  tasks := fun serial hserial =>
    (h'.tasks serial (Nat.lt_of_lt_of_le hserial h.nextSerial)).trans (h.tasks serial hserial)
  live := fun id serial hlive => h'.live id serial (h.live id serial hlive)
  isLive := by
    intro id
    rw [h'.isLive, h.isLive, List.mem_append, or_assoc]
  observers := by
    intro tenantId
    rcases h.observers tenantId with ⟨new, hnew, hnodup, hmem⟩
    rcases h'.observers tenantId with ⟨new', hnew', hnodup', hmem'⟩
    refine ⟨new ++ new', by rw [hnew', hnew, List.append_assoc], ?_, fun o ho => ?_⟩
    · rw [List.map_append, List.nodup_append]
      refine ⟨hnodup, hnodup', ?_⟩
      rintro id hid id' hid' rfl
      -- What was added first is live when the rest is added.
      rcases List.mem_map.mp hid with ⟨o, ho, rfl⟩
      rcases List.mem_map.mp hid' with ⟨o', ho', heq⟩
      have hlive := (h.isLive o.1).mpr (Or.inr (hmem o ho).1)
      have hnot := (hmem' o' ho').2
      rw [heq, hlive] at hnot
      exact nomatch hnot
    · rcases List.mem_append.mp ho with ho | ho
      · exact ⟨List.mem_append_left _ (hmem o ho).1, (hmem o ho).2⟩
      · refine ⟨List.mem_append_right _ (hmem' o ho).1, ?_⟩
        have hnot := (hmem' o ho).2
        cases hlive : t.isLive o.1 with
        | false => rfl
        | true =>
          rw [(h.isLive o.1).mpr (Or.inl hlive)] at hnot
          exact nomatch hnot
  ready := h'.ready.trans h.ready
  nextSerial := Nat.le_trans h.nextSerial h'.nextSerial
  consistent := fun ht => h'.consistent (h.consistent ht)

theorem extends_started (t : MonitorTable) (id : Nat) (condition : Condition)
    (binding : MonitorBinding) (hlive : t.isLive id = false) :
    t.Extends (t.started id condition binding) [id] where
  tasks := by
    intro serial hserial
    rw [started, Dict.get?_insert, if_neg (Nat.ne_of_lt hserial)]
  live := by
    intro other serial hother
    rw [live_started, if_neg, hother]
    -- No task was live under the id, so that none is given up for the new one.
    rintro rfl
    rw [(isLive_eq_false_iff t other).mp hlive] at hother
    cases hother
  isLive := by
    intro other
    rw [isLive_iff, isLive_iff, List.mem_singleton]
    simp only [live_started]
    by_cases hid : other = id <;> simp [hid]
  observers := by
    intro tenantId
    rw [observers_started]
    by_cases htenant : tenantId = binding.target.tenantId
    · refine ⟨[(id, t.nextSerial)], by rw [if_pos htenant, htenant], List.nodup_singleton _, ?_⟩
      intro o ho
      rw [List.mem_singleton.mp ho]
      exact ⟨List.mem_singleton_self id, hlive⟩
    · exact ⟨[], by rw [if_neg htenant, List.append_nil], .nil, by simp⟩
  ready := rfl
  nextSerial := Nat.le_succ _
  consistent := fun ht => consistent_started t id condition binding ht hlive

section Records

variable (t : MonitorTable)

/-- The ids of the records that have their monitors in the end. -/
def served (records : List PolicyRecord) : List Nat :=
  (records.filter fun r => (t.fault? r).isNone).map PolicyRecord.id

theorem mem_served (records : List PolicyRecord) (r : PolicyRecord) (hr : r ∈ records)
    (h : t.fault? r = none) : r.id ∈ t.served records :=
  List.mem_map_of_mem (List.mem_filter.mpr ⟨hr, by rw [h]; rfl⟩)

theorem served_cons (r : PolicyRecord) (rest : List PolicyRecord) :
    t.served (r :: rest) = t.served [r] ++ t.served rest := by
  rw [served, ← List.singleton_append, List.filter_append, List.map_append]
  rfl

/-- One record gets its monitor, unless it runs or none is described. -/
theorem extends_revived (r : PolicyRecord) : t.Extends (t.revived r) (t.served [r]) := by
  rw [served, List.filter_singleton, fault?, revived]
  cases hlive : t.isLive r.id with
  | true =>
    refine extends_of_live t _ fun id hid => ?_
    rw [List.mem_singleton.mp hid, hlive]
  | false =>
    cases hplan : r.plan with
    | error e => exact extends_of_live t [] (by simp)
    | ok plan => exact extends_started t r.id plan.1 plan.2 hlive

/-- Starting the monitor of one record does not change what becomes of another. -/
theorem fault?_revived (r other : PolicyRecord) (hne : other.id ≠ r.id) :
    (t.revived r).fault? other = t.fault? other := by
  have hlive : (t.revived r).isLive other.id = t.isLive other.id := by
    rw [Bool.eq_iff_iff, (extends_revived t r).isLive]
    refine or_iff_left fun hmem => hne ?_
    rcases List.mem_map.mp hmem with ⟨r', hr', heq⟩
    rw [← heq, List.mem_singleton.mp (List.mem_of_mem_filter hr')]
  rw [fault?, fault?, hlive]

theorem served_revived (r : PolicyRecord) (rest : List PolicyRecord)
    (hne : ∀ other ∈ rest, other.id ≠ r.id) : (t.revived r).served rest = t.served rest := by
  refine congrArg _ (List.filter_congr fun other hother => ?_)
  rw [fault?_revived t r other (hne other hother)]

/-- Of records with different ids those that are started are seen from the first tables. -/
theorem extends_reviveAll (records : List PolicyRecord)
    (hdistinct : (records.map PolicyRecord.id).Nodup) :
    t.Extends (t.reviveAll records) (t.served records) := by
  induction records generalizing t with
  | nil => exact extends_of_live t [] (by simp)
  | cons r rest ih =>
    rw [List.map_cons, List.nodup_cons] at hdistinct
    have hne : ∀ other ∈ rest, other.id ≠ r.id := fun other hother heq =>
      hdistinct.1 (List.mem_map.mpr ⟨other, hother, heq⟩)
    have hrest := ih (t.revived r) hdistinct.2
    rw [served_revived t r rest hne] at hrest
    rw [served_cons]
    exact extends_trans t _ _ _ _ (extends_revived t r) hrest

/-- What could not be started is not live, and what was started is. -/
theorem fault?_reviveAll (records : List PolicyRecord)
    (hdistinct : (records.map PolicyRecord.id).Nodup) (r : PolicyRecord) (hr : r ∈ records) :
    (t.reviveAll records).fault? r = t.fault? r := by
  have hextends := extends_reviveAll t records hdistinct
  cases hfault : t.fault? r with
  | none =>
    have hserved := mem_served t records r hr hfault
    rw [fault?, if_pos ((hextends.isLive r.id).mpr (Or.inr hserved))]
  | some e =>
    have hlive : (t.reviveAll records).isLive r.id = t.isLive r.id := by
      rw [Bool.eq_iff_iff, hextends.isLive]
      refine or_iff_left fun hmem => ?_
      rcases List.mem_map.mp hmem with ⟨r', hr', heq⟩
      rcases List.mem_filter.mp hr' with ⟨hmem', hnone⟩
      -- The ids are different, so it would be the same record.
      rw [List.inj_on_of_nodup_map hdistinct hmem' hr heq, hfault] at hnone
      exact nomatch hnone
    rw [← hfault, fault?, fault?, hlive]

/-- Nothing happens to a record that has its monitor or cannot get one. -/
theorem revived_of_settled (r : PolicyRecord)
    (h : t.isLive r.id = true ∨ ∃ e, r.plan = .error e) : t.revived r = t := by
  rw [revived]
  rcases h with hlive | ⟨e, he⟩
  · rw [if_pos hlive]
  · rw [he]
    exact ite_self t

theorem reviveAll_of_settled (records : List PolicyRecord)
    (h : ∀ r ∈ records, t.isLive r.id = true ∨ ∃ e, r.plan = .error e) :
    t.reviveAll records = t := by
  induction records with
  | nil => rfl
  | cons r rest ih =>
    rw [reviveAll, List.foldl_cons, revived_of_settled t r (h r List.mem_cons_self)]
    exact ih fun other hother => h other (List.mem_cons_of_mem _ hother)

/-- Doing it again changes nothing. -/
theorem reviveAll_reviveAll (records : List PolicyRecord)
    (hdistinct : (records.map PolicyRecord.id).Nodup) :
    (t.reviveAll records).reviveAll records = t.reviveAll records := by
  refine reviveAll_of_settled _ records fun r hr => ?_
  cases hplan : r.plan with
  | error e => exact Or.inr ⟨e, rfl⟩
  | ok plan =>
    -- What describes a monitor has got it the first time.
    have hnone : t.fault? r = none := by
      rw [fault?, hplan]
      exact ite_self none
    have hserved := mem_served t records r hr hnone
    exact Or.inl (((extends_reviveAll t records hdistinct).isLive r.id).mpr (Or.inr hserved))

end Records

end MonitorTable

/-- The keys that a reload has to account for: those of records that are alive, and those of hashes
    that cannot be decoded. -/
def Store.Due (s : Store) (key : String) : Prop :=
  (∃ r, key = PolicyRecord.storeKey r.id ∧ s.record? r.id = some r ∧ r.alive = true) ∨
    ∃ e, s.Undecodable key e

namespace Engine.ReloadReport

/-- The keys that a report tells of, as started or as failed. -/
def keys (report : ReloadReport) : List String :=
  report.spawned.map PolicyRecord.storeKey ++ report.failed.map ReloadFailure.key

/-- A report accounts for a store: it tells once of every key that it has to account for and of no
    other, what cannot be decoded has failed, and nothing is left out of the count. -/
structure Accounts (report : ReloadReport) (s : Store) : Prop where
  once : report.keys.Nodup
  due : ∀ key, key ∈ report.keys ↔ s.Due key
  undecodable : ∀ key e, s.Undecodable key e → undecodableFailure (key, e) ∈ report.failed
  count : report.aliveRecords = report.spawned.length + report.failed.length
  complete : report.isComplete = true ↔ report.failed = []
  ascending : report.spawned.Pairwise fun a b => a < b

/-- The failure of a record that did not get its monitor. -/
def failure (r : PolicyRecord) (e : EngineError) : ReloadFailure :=
  { key := PolicyRecord.storeKey r.id, policyId := some r.id, reason := e.message }

/-- A report to which one record is added. -/
def noted (report : ReloadReport) (r : PolicyRecord) : Option EngineError → ReloadReport
  | none =>
    { report with
      aliveRecords := report.aliveRecords + 1, spawned := report.spawned ++ [r.id] }
  | some e =>
    { report with
      aliveRecords := report.aliveRecords + 1, failed := report.failed ++ [failure r e] }

/-- A report to which some records are added, by what the tables say. -/
def notedAll (report : ReloadReport) (t : MonitorTable) (records : List PolicyRecord) :
    ReloadReport :=
  { aliveRecords := report.aliveRecords + records.length
    spawned := report.spawned ++ t.served records
    failed := report.failed ++ records.filterMap fun r => (t.fault? r).map (failure r) }

theorem notedAll_cons (report : ReloadReport) (t : MonitorTable) (r : PolicyRecord)
    (rest : List PolicyRecord) :
    report.notedAll t (r :: rest) = (report.noted r (t.fault? r)).notedAll t rest := by
  rw [notedAll, notedAll, MonitorTable.served_cons, MonitorTable.served, List.filter_singleton,
    List.filterMap_cons, List.length_cons]
  cases t.fault? r <;> simp [noted, Nat.add_comm, Nat.add_left_comm]

/-- Tables that say the same of all records lead to the same report. -/
theorem notedAll_congr (report : ReloadReport) (t u : MonitorTable) (records : List PolicyRecord)
    (h : ∀ r ∈ records, u.fault? r = t.fault? r) :
    report.notedAll u records = report.notedAll t records := by
  have hserved : u.served records = t.served records :=
    congrArg _ (List.filter_congr fun r hr => by rw [h r hr])
  have hfailed : (records.filterMap fun r => (u.fault? r).map (failure r)) =
      records.filterMap fun r => (t.fault? r).map (failure r) :=
    List.filterMap_congr fun r hr => by rw [h r hr]
  rw [notedAll, notedAll, hserved, hfailed]

theorem perm_keys_noted (report : ReloadReport) (r : PolicyRecord) (fault : Option EngineError) :
    (report.noted r fault).keys.Perm (PolicyRecord.storeKey r.id :: report.keys) := by
  cases fault with
  | none =>
    rw [noted, keys, keys, List.map_append, List.map_singleton, List.append_assoc]
    exact List.perm_middle
  | some e =>
    rw [noted, keys, keys, List.map_append, List.map_singleton, ← List.append_assoc]
    exact List.perm_append_singleton _ _

/-- Every record adds its key, be it started or not. -/
theorem perm_keys_notedAll (report : ReloadReport) (t : MonitorTable)
    (records : List PolicyRecord) : (report.notedAll t records).keys.Perm
      (report.keys ++ records.map fun r => PolicyRecord.storeKey r.id) := by
  induction records generalizing report with
  | nil => simp [notedAll, keys, MonitorTable.served]
  | cons r rest ih =>
    rw [notedAll_cons, List.map_cons]
    refine (ih _).trans (((perm_keys_noted report r _).append_right _).trans ?_)
    exact List.perm_middle.symm

theorem isComplete_iff (report : ReloadReport)
    (h : report.aliveRecords = report.spawned.length + report.failed.length) :
    report.isComplete = true ↔ report.failed = [] := by
  rw [isComplete, h, Bool.and_eq_true, List.isEmpty_iff, decide_eq_true_eq]
  refine and_iff_left_of_imp fun hnone => ?_
  rw [hnone, List.length_nil, Nat.add_zero]

/-- The report with which a reload begins. -/
def begun (undecodable : List (String × RecordError)) : ReloadReport :=
  { aliveRecords := undecodable.length, failed := undecodable.map undecodableFailure }

theorem keys_begun (undecodable : List (String × RecordError)) :
    (begun undecodable).keys = undecodable.map Prod.fst := by
  rw [begun, keys, List.map_map]
  rfl

/-- The report on what a scan finds. -/
def ofScan (t : MonitorTable) (scan : Scan) : ReloadReport :=
  (begun scan.undecodable).notedAll t (scan.records.filter PolicyRecord.alive)

section Finds

variable (t : MonitorTable) (scan : Scan) (s : Store) (h : scan.Finds s)

theorem perm_keys_ofScan : (ofScan t scan).keys.Perm (scan.undecodable.map Prod.fst ++
    (scan.records.filter PolicyRecord.alive).map fun r => PolicyRecord.storeKey r.id) := by
  rw [← keys_begun]
  exact perm_keys_notedAll _ t _

theorem count_ofScan : (ofScan t scan).aliveRecords =
    (ofScan t scan).spawned.length + (ofScan t scan).failed.length := by
  have hlength := (perm_keys_ofScan t scan).length_eq
  simp only [keys, List.length_append, List.length_map] at hlength
  rw [hlength]
  rfl

include h

theorem nodup_keys_ofScan : (ofScan t scan).keys.Nodup := by
  rw [(perm_keys_ofScan t scan).nodup_iff]
  have hall : (scan.undecodable.map Prod.fst ++
      scan.records.map fun r => PolicyRecord.storeKey r.id).Nodup :=
    (List.perm_append_comm.trans h.keys).nodup_iff.mpr ((Dict.nodup_keys s).filter _)
  exact hall.sublist ((List.filter_sublist.map _).append_left _)

theorem mem_keys_ofScan (key : String) : key ∈ (ofScan t scan).keys ↔ s.Due key := by
  rw [(perm_keys_ofScan t scan).mem_iff, List.mem_append, List.mem_map, List.mem_map, or_comm]
  refine or_congr ⟨?_, ?_⟩ ⟨?_, ?_⟩
  · rintro ⟨r, hr, rfl⟩
    rcases List.mem_filter.mp hr with ⟨hfound, halive⟩
    exact ⟨r, rfl, (h.records r).mp hfound, halive⟩
  · rintro ⟨r, rfl, hrecord, halive⟩
    exact ⟨r, List.mem_filter.mpr ⟨(h.records r).mpr hrecord, halive⟩, rfl⟩
  · rintro ⟨⟨key, e⟩, hentry, rfl⟩
    exact ⟨e, (h.undecodable key e).mp hentry⟩
  · rintro ⟨e, he⟩
    exact ⟨(key, e), (h.undecodable key e).mpr he, rfl⟩

/-- A report on what a scan finds accounts for the store. -/
theorem accounts_ofScan : (ofScan t scan).Accounts s where
  once := nodup_keys_ofScan t scan s h
  due := mem_keys_ofScan t scan s h
  undecodable := fun key e he =>
    List.mem_append_left _ (List.mem_map.mpr ⟨(key, e), (h.undecodable key e).mpr he, rfl⟩)
  count := count_ofScan t scan
  complete := isComplete_iff _ (count_ofScan t scan)
  ascending :=
    h.ascending.sublist ((List.filter_sublist.trans List.filter_sublist).map PolicyRecord.id)

end Finds

end Engine.ReloadReport

namespace Session

/-- What starting the monitor of a stored record comes to if it does not run. -/
theorem run_spawnRecorded_of_plan (s : Session) (r : PolicyRecord)
    (hlive : s.monitors.isLive r.id = false) :
    s.run (Engine.spawnRecorded r).run =
      (r.plan.map fun _ => (), s.withMonitors (s.monitors.revived r)) := by
  rw [MonitorTable.revived, hlive, if_neg Bool.false_ne_true, PolicyRecord.plan,
    Engine.spawnRecorded]
  cases hbinding : Engine.recordedBinding r with
  | error fault => rfl
  | ok binding =>
    dsimp only
    rw [run_discard]
    cases hcondition : Condition.parse r.conditionText with
    | error fault =>
      rw [Engine.spawn, hcondition]
      rfl
    | ok condition =>
      rw [run_spawn s r binding condition hlive hcondition]
      rfl

/-- One record of a reload. -/
theorem run_reloadRecords_cons (s : Session) (r : PolicyRecord) (rest : List PolicyRecord)
    (report : Engine.ReloadReport) :
    s.run (Engine.reloadRecords (r :: rest) report).run =
      (s.withMonitors (s.monitors.revived r)).run
        (Engine.reloadRecords rest (report.noted r (s.monitors.fault? r))).run := by
  cases hlive : s.monitors.isLive r.id with
  | true =>
    rw [MonitorTable.revived, MonitorTable.fault?, if_pos hlive, if_pos hlive]
    exact run_reloadRecords_of_isLive s r rest report hlive
  | false =>
    rw [run_reloadRecords_of_spawn s _ r rest report hlive _ (run_spawnRecorded_of_plan s r hlive),
      MonitorTable.fault?, hlive, if_neg Bool.false_ne_true]
    cases r.plan <;> rfl

/-- What becomes of records with different ids is seen from the first tables. -/
theorem run_reloadRecords_of_distinct (s : Session) (records : List PolicyRecord)
    (report : Engine.ReloadReport) (hdistinct : (records.map PolicyRecord.id).Nodup) :
    s.run (Engine.reloadRecords records report).run =
      (.ok (report.notedAll s.monitors records),
        s.withMonitors (s.monitors.reviveAll records)) := by
  induction records generalizing s report with
  | nil =>
    rw [Engine.ReloadReport.notedAll]
    simp only [List.length_nil, List.filterMap_nil, List.append_nil, Nat.add_zero,
      MonitorTable.served, List.filter_nil, List.map_nil]
    rfl
  | cons r rest ih =>
    rw [List.map_cons, List.nodup_cons] at hdistinct
    have hne : ∀ other ∈ rest, other.id ≠ r.id := fun other hother heq =>
      hdistinct.1 (List.mem_map.mpr ⟨other, hother, heq⟩)
    -- The rest is run on tables with one more monitor, which say the same of it as the first ones.
    rw [run_reloadRecords_cons, ih _ _ hdistinct.2, monitors_withMonitors,
      Engine.ReloadReport.notedAll_cons, Engine.ReloadReport.notedAll_congr _ s.monitors _ rest
        fun other hother => MonitorTable.fault?_revived s.monitors r other (hne other hother)]
    rfl

/-- A reload makes its report from what the scan finds and from the tables. -/
theorem run_reload_of_finds (s : Session) (hopen : s.Open) (scan : Scan)
    (hscan : on scanDynamic s.store = (.ok scan, s.store)) (h : scan.Finds s.store) :
    s.run Engine.reload.run = (.ok (.ofScan s.monitors scan), s.withMonitors
      (s.monitors.reviveAll (scan.records.filter PolicyRecord.alive))) := by
  have hfound := run_ofRegistry s scanDynamic hopen
  rw [hscan] at hfound
  refine (run_bind_ok s _ _ _ _ hfound).trans ?_
  exact run_reloadRecords_of_distinct s _ _ h.distinct

/-- A reload of a store that the scan can read ends with a report that accounts for it, whatever
    runs already. The store stays as it is, and nothing happens to what runs: only the monitors of
    what is reported as started are added, as far as they did not run. A second reload reports the
    same and changes nothing at all. -/
theorem reload_of_scannable (s : Session) (hopen : s.Open) (h : s.store.Scannable) :
    ∃ report monitors, s.run Engine.reload.run = (.ok report, s.withMonitors monitors) ∧
      report.Accounts s.store ∧ s.monitors.Extends monitors report.spawned ∧
      (s.withMonitors monitors).run Engine.reload.run = (.ok report, s.withMonitors monitors) := by
  rcases on_scanDynamic_of_scannable s.store h with ⟨scan, hscan, hfinds⟩
  have hdistinct := hfinds.distinct
  have hrun := run_reload_of_finds s hopen scan hscan hfinds
  refine ⟨_, _, hrun, Engine.ReloadReport.accounts_ofScan s.monitors scan s.store hfinds,
    MonitorTable.extends_reviveAll s.monitors _ hdistinct, ?_⟩
  have hagain := run_reload_of_finds
    (s.withMonitors (s.monitors.reviveAll (scan.records.filter PolicyRecord.alive)))
    hopen scan hscan hfinds
  have hreport : Engine.ReloadReport.ofScan
      (s.monitors.reviveAll (scan.records.filter PolicyRecord.alive)) scan =
        Engine.ReloadReport.ofScan s.monitors scan :=
    Engine.ReloadReport.notedAll_congr _ _ _ _ fun r hr =>
      MonitorTable.fault?_reviveAll s.monitors _ hdistinct r hr
  rw [monitors_withMonitors, MonitorTable.reviveAll_reviveAll s.monitors _ hdistinct,
    hreport] at hagain
  exact hagain

/-- A record that can be started. -/
def intact : PolicyRecord :=
  { id := 1, ruleText := "TENANT alice WHEN put_bw > 1 DO DELETE compress", targetName := "alice"
    targetId := "t1", filterName := "compress", verb := "DELETE", actionIndex := 0
    conditionText := "put_bw > 1", transient := false, dispatchLocation := "", alive := true }

/-- The fields of a hash that is no record. -/
def scrap : Dict String String := Dict.ofList [("id", "x")]

/-- The two next to each other. -/
def mixed : Store :=
  (Store.putHash Dict.empty (PolicyRecord.storeKey 1) intact.hash).putHash
    (PolicyRecord.keyStem ++ "x") scrap

theorem get?_mixed (name : String) (value : StoreValue)
    (h : mixed.get? (PolicyRecord.keyStem ++ name) = some value) :
    name = "x" ∧ value = .hash scrap ∨
      name = Number.writeNatural 1 ∧ value = .hash intact.hash := by
  rw [mixed, Store.get?_putHash, Store.get?_putHash] at h
  by_cases hscrap : PolicyRecord.keyStem ++ name = PolicyRecord.keyStem ++ "x"
  · rw [if_pos hscrap] at h
    cases h
    exact Or.inl ⟨append_right_inj _ _ _ hscrap, rfl⟩
  · rw [if_neg hscrap] at h
    by_cases hrecord : PolicyRecord.keyStem ++ name = PolicyRecord.storeKey 1
    · rw [if_pos hrecord] at h
      cases h
      exact Or.inr ⟨append_right_inj _ _ _ hrecord, rfl⟩
    · rw [if_neg hrecord] at h
      exact nomatch h

theorem ofFields_scrap : PolicyRecord.ofFields scrap = .error (.invalidField "id" "x") := rfl

theorem scannable_mixed : mixed.Scannable where
  hash := by
    intro name value h
    rcases get?_mixed name value h with ⟨-, rfl⟩ | ⟨-, rfl⟩ <;> exact ⟨_, rfl⟩
  own := by
    intro name fields r h hr
    rcases get?_mixed name _ h with ⟨-, heq⟩ | ⟨rfl, heq⟩
    · cases heq
      rw [ofFields_scrap] at hr
      exact nomatch hr
    · cases heq
      have hstorable : intact.Storable :=
        ⟨by decide, by decide, by decide, fun _ hsize => nomatch hsize⟩
      rw [PolicyRecord.ofFields_hash intact hstorable] at hr
      cases hr
      rfl

theorem reload_of_scannable_mixed : mixed.Scannable ∧
    ∃ report monitors, run { backend := { data := mixed } } Engine.reload.run =
        (.ok report, withMonitors { backend := { data := mixed } } monitors) ∧
      report.keys.Nodup ∧
      Engine.undecodableFailure (PolicyRecord.keyStem ++ "x", .invalidField "id" "x") ∈
        report.failed := by
  rcases reload_of_scannable { backend := { data := mixed } } rfl scannable_mixed with
    ⟨report, monitors, hrun, haccounts, -⟩
  have hbad : mixed.Undecodable (PolicyRecord.keyStem ++ "x") (.invalidField "id" "x") := by
    refine ⟨"x", scrap, rfl, ?_, ofFields_scrap⟩
    rw [mixed, Store.get?_putHash, if_pos rfl]
    rfl
  exact ⟨scannable_mixed, report, monitors, hrun, haccounts.once, haccounts.undecodable _ _ hbad⟩

end Session

end StoragePolicy
