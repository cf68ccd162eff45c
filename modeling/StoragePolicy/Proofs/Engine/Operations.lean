import StoragePolicy.Proofs.Engine.Creating
import StoragePolicy.Proofs.Engine.Firing
import StoragePolicy.Proofs.Engine.Restarting

/-!
# Sessions from their beginning

A session begins with a store in which no id has been taken, and without monitors. Then operations
follow, and after each of them all monitors run until they have nothing left to read. In every state
that is reached in this way the live monitors, their observers and their records belong together.

Every operation goes by deeds but the shutdown, which leaves records behind that are alive and whose
monitors do not run. That is made up for by the next reload.

## Main definitions

* `Session.Operation`, `Operation.Deeds`: What is asked of the engine, and by which deeds it goes.
* `Session.perform`, `Session.performAll`: One operation, and several.
* `Session.Fresh`: Where a session begins.
* `Session.Awake`, `Session.Lively`: Records that are alive have monitors, and monitors have records
  that are alive.
* `Session.Coherent`: Monitors, observers and records belong together.

## Theorems

* `awake_of_effect`, `lively_of_effect`: What a deed keeps.
* `orderly_perform`, `orderly_performAll`: What one operation keeps, and what several do.
* `coherent_of_run`: Monitors, observers and records belong together in every state.
-/

namespace StoragePolicy

open Registry

namespace Session

/-- What is asked of the engine. -/
inductive Operation where
  | deploy (text : String)
  | deleteStatic (targetId : String) (id : Nat)
  | deleteDynamic (id : Nat)
  | updateStatic (targetId : String) (id : Nat) (patch : List (String × Json))
  | respawn (id : Nat)
  | reload
  | shutdown
  | ingest (text : String)

/-- The program of an operation, without its answer. -/
def Operation.program (directory : Directory) (settings : Engine.Settings) :
    Operation → Program Engine.interface Unit
  | .deploy text => discard (Engine.deploy directory settings text)
  | .deleteStatic targetId id => discard (Engine.ofRegistry (Engine.deleteEntry targetId id)).run
  | .deleteDynamic id => discard (Engine.remove id).run
  | .updateStatic targetId id patch =>
    discard (Engine.ofRegistry (Engine.updateEntry directory targetId id patch)).run
  | .respawn id => discard (Engine.respawn id).run
  | .reload => discard Engine.reload.run
  | .shutdown => Engine.shutdown
  | .ingest text => discard (Engine.ingest text)

/-- The deeds of an operation. The shutdown is none. -/
def Operation.Deeds : Operation → Deed → Prop
  | .deploy _ => Grows
  | .deleteStatic _ _ | .updateStatic _ _ _ => fun deed => deed = .pass
  | .deleteDynamic id => fun deed => deed = .remove id
  | .respawn id => fun deed => deed = .revive id
  | .reload => Revives
  | .shutdown => fun _ => False
  | .ingest _ => Hears

/-- Whether a shutdown has not been followed by a reload after an operation, by whether it was so
    before. -/
def Operation.stops (stopped : Bool) : Operation → Bool
  | .shutdown => true
  | .reload => false
  | _ => stopped

section Perform

variable (directory : Directory) (settings : Engine.Settings)

/-- Performs an operation, and lets the monitors run until they have nothing left to read. -/
def perform (s : Session) (operation : Operation) : Session :=
  (s.run (operation.program directory settings)).2.settle settings

/-- Performs operations one after the other. -/
def performAll (s : Session) (operations : List Operation) : Session :=
  operations.foldl (perform directory settings) s

end Perform

/-- No id has been taken, and there are no monitors. -/
structure Fresh (s : Session) : Prop where
  unrefused : s.Open
  vacant : ∀ key, Own key → s.store.get? key = none
  monitors : s.monitors = {}

/-- Every record that is alive has a live monitor. -/
def Awake (s : Session) : Prop :=
  ∀ id r, s.store.record? id = some r → r.alive = true → s.monitors.isLive id = true

/-- Every live monitor has a record that is alive. -/
def Lively (s : Session) : Prop :=
  ∀ id, s.monitors.isLive id = true → ∃ r, s.store.record? id = some r ∧ r.alive = true

/-- Monitors, observers and records belong together. That every record which is alive has a monitor
    is not said while a shutdown has not been followed by a reload. -/
structure Coherent (settings : Engine.Settings) (stopped : Bool) (s : Session) : Prop where
  recorded : ∀ id, s.monitors.isLive id = true → ∃ r, s.store.record? id = some r ∧ r.id = id
  observed : ∀ tenantId id serial, (id, serial) ∈ s.monitors.fanout.observers tenantId ↔
    s.monitors.live.get? id = some serial ∧
      ∃ r, s.store.record? id = some r ∧ r.target.tenantId = tenantId
  once : ∀ tenantId, ((s.monitors.fanout.observers tenantId).map Prod.fst).Nodup
  awake : stopped = false → ∀ name r, s.store.recordAt name = some r → r.alive = true →
    s.monitors.isLive r.id = true
  lively : settings.aliveAfterFire = true → s.Lively

/-! ### Records that are alive -/

section Effect

variable (s t : Session)

/-- A deed leaves a live monitor to every record that is alive. -/
theorem awake_of_effect (h : s.Sound) (deed : Deed) (heffect : deed.Effect s t)
    (hawake : s.Awake) : t.Awake := by
  intro id r hr halive
  rw [record?_of_effect s t h deed heffect] at hr
  -- What is live stays as it is, or there is one monitor more, or one less.
  have hsame : t.monitors.live = s.monitors.live → s.store.record? id = some r →
      t.monitors.isLive id = true := by
    intro hlive hold
    have hbefore := hawake id r hold halive
    rw [MonitorTable.isLive] at hbefore ⊢
    rw [hlive]
    exact hbefore
  have hstarted : ∀ own condition binding,
      t.monitors = s.monitors.started own condition binding →
      (id ≠ own → s.store.record? id = some r) → t.monitors.isLive id = true := by
    intro own condition binding hmonitors hold
    rw [hmonitors, MonitorTable.isLive_iff]
    simp only [MonitorTable.live_started]
    by_cases hid : id = own
    · exact ⟨_, if_pos hid⟩
    · rw [if_neg hid, ← MonitorTable.isLive_iff]
      exact hawake id r (hold hid) halive
  have hstopped : ∀ own, t.monitors = s.monitors.without own →
      id ≠ own ∧ s.store.record? id = some r → t.monitors.isLive id = true := by
    intro own hmonitors hold
    rw [hmonitors, MonitorTable.isLive_iff]
    simp only [MonitorTable.live_without]
    rw [if_neg hold.1, ← MonitorTable.isLive_iff]
    exact hawake id r hold.2 halive
  -- If a deed marks one record as not alive, then a record that is alive after it is another one.
  have hmarked : ∀ own, (if id = own then
      (s.store.record? own).map fun r => r.marked false else s.store.record? id) = some r →
      id ≠ own ∧ s.store.record? id = some r := by
    intro own hif
    by_cases hid : id = own
    · rw [if_pos hid, Option.map_eq_some_iff] at hif
      rcases hif with ⟨old, -, rfl⟩
      exact absurd halive (by simp [PolicyRecord.marked])
    · rw [if_neg hid] at hif
      exact ⟨hid, hif⟩
  cases deed with
  | pass => exact hsame (by rw [heffect.2]) hr
  | hear sample =>
    refine hsame ?_ hr
    rw [heffect.2, (MonitorTable.agrees_deliver s.monitors sample).live]
  | read serial => exact hsame heffect.2.1.live hr
  | create new =>
    rcases heffect with ⟨-, -, -, -, binding, condition, -, hmonitors⟩
    exact hstarted new.id condition binding hmonitors fun hid => (if_neg hid).symm.trans hr
  | revive own =>
    rcases heffect with ⟨-, old, -, -, binding, condition, -, hmonitors⟩
    exact hstarted own condition binding hmonitors fun hid => (if_neg hid).symm.trans hr
  | rest own => exact hsame (by rw [heffect.2]) (hmarked own hr).2
  | retire own => exact hstopped own heffect.2 (hmarked own hr)
  | remove own =>
    refine hstopped own heffect.2 ?_
    dsimp only [Deed.recordAfter] at hr
    by_cases hid : id = own
    · rw [if_pos hid] at hr
      cases hr
    · rw [if_neg hid] at hr
      exact ⟨hid, hr⟩

/-- A deed that does not mark a record under its running monitor leaves every live monitor a record
    that is alive. -/
theorem lively_of_effect (h : s.Sound) (deed : Deed) (heffect : deed.Effect s t)
    (hrest : ∀ id, deed ≠ .rest id) (hlively : s.Lively) : t.Lively := by
  intro id hlive
  rcases (MonitorTable.isLive_iff _ id).mp hlive with ⟨serial, hserial⟩
  rcases live_of_effect s t h deed heffect id serial hserial with
    ⟨hold, -, hretire, hremove⟩ | ⟨r, binding, condition, hr, halive, -⟩
  · rcases hlively id ((MonitorTable.isLive_iff _ id).mpr ⟨serial, hold⟩) with ⟨r, hr, halive⟩
    rw [record?_of_effect s t h deed heffect]
    have hother : ∀ own (record : Option PolicyRecord), id ≠ own → ∃ r',
        (if id = own then record else s.store.record? id) = some r' ∧ r'.alive = true := by
      intro own record hid
      exact ⟨r, (if_neg hid).trans hr, halive⟩
    -- The deeds that take a record away have taken its monitor away as well.
    cases deed with
    | pass => exact ⟨r, hr, halive⟩
    | hear sample => exact ⟨r, hr, halive⟩
    | read serial' => exact ⟨r, hr, halive⟩
    | create new =>
      refine hother new.id _ ?_
      rintro rfl
      rw [heffect.1] at hr
      exact nomatch hr
    | revive own =>
      by_cases hid : id = own
      · refine ⟨r.marked true, ?_, rfl⟩
        rw [Deed.recordAfter, if_pos hid, ← hid, hr]
        rfl
      · exact hother own _ hid
    | rest own => exact absurd rfl (hrest own)
    | retire own => exact hother own _ fun hid => hretire (by rw [hid])
    | remove own => exact hother own _ fun hid => hremove (by rw [hid])
  · exact ⟨r, hr, halive⟩

end Effect

/-! ### Operations -/

section Operations

variable (directory : Directory) (settings : Engine.Settings)

/-- The deeds of a session. A record is marked under its running monitor only if the settings say
    so. -/
def Allowed : Deed → Prop
  | .rest _ => settings.aliveAfterFire = false
  | _ => True

theorem allowed_of_fires (deed : Deed) (h : Fires settings deed) : Allowed settings deed := by
  cases deed with
  | rest id => exact h
  | _ => trivial

theorem awake_of_path (kind : Deed → Prop) (s t : Session) (h : Path kind s t) (hs : s.Sound)
    (hawake : s.Awake) : t.Awake :=
  path_invariant Awake (fun deed s t _ hs _ hdoes => awake_of_effect s t hs deed hdoes.effect)
    s t h hs hawake

theorem lively_of_path (haliveAfterFire : settings.aliveAfterFire = true) (s t : Session)
    (h : Path (Allowed settings) s t) (hs : s.Sound) (hlively : s.Lively) : t.Lively := by
  refine path_invariant Lively (fun deed s t hkind hs _ hdoes => ?_) s t h hs hlively
  refine lively_of_effect s t hs deed hdoes.effect ?_
  rintro id rfl
  have hoff : settings.aliveAfterFire = false := hkind
  rw [haliveAfterFire] at hoff
  exact nomatch hoff

theorem allowed_of_deeds (operation : Operation) (deed : Deed) (h : operation.Deeds deed) :
    Allowed settings deed := by
  cases deed with
  | rest id => cases operation <;> exact absurd h (by simp [Operation.Deeds, Grows, Revives, Hears])
  | _ => trivial

/-- Every operation but the shutdown goes by its deeds. -/
theorem reaches_program (s : Session) (hdirectory : directory.Slashless s.store)
    (operation : Operation) (hoperation : operation ≠ .shutdown) :
    Reaches operation.Deeds s (s.run (operation.program directory settings)).2 := by
  cases operation with
  | deploy text =>
    rw [Operation.program, run_discard_program]
    exact reaches_deploy directory settings text s hdirectory
  | deleteStatic targetId id =>
    rw [Operation.program, run_discard_program]
    exact works_deleteEntry (Operation.deleteStatic targetId id).Deeds rfl targetId id s
  | deleteDynamic id =>
    rw [Operation.program, run_discard_program]
    exact reaches_remove s (Operation.deleteDynamic id).Deeds id rfl
  | updateStatic targetId id patch =>
    rw [Operation.program, run_discard_program]
    exact works_updateEntry (Operation.updateStatic targetId id patch).Deeds rfl directory targetId
      id patch s
  | respawn id =>
    rw [Operation.program, run_discard_program]
    exact reaches_respawn (Operation.respawn id).Deeds s id rfl
  | reload =>
    rw [Operation.program, run_discard_program]
    -- A reload is known by its result, and its deeds come with it.
    have heffort := effort_run Engine.reload.run s
    refine ⟨heffort, fun _ hs => ?_⟩
    rcases run_reload s hs.toSound with ⟨records, monitors, -, -, hrun, hsound, hpath, -⟩
    rw [hrun] at heffort ⊢
    rcases hs.bound with ⟨n, hn, hledger⟩
    exact ⟨⟨hsound, n, Nat.le_trans hn heffort, hledger⟩, hpath⟩
  | shutdown => exact absurd rfl hoperation
  | ingest text =>
    rw [Operation.program, run_discard_program]
    exact reaches_ingest text s

/-- What holds between the operations of a session. -/
structure Orderly (stopped : Bool) (s : Session) : Prop where
  counted : s.Counted
  directory : directory.Slashless s.store
  awake : stopped = false → s.Awake
  lively : settings.aliveAfterFire = true → s.Lively

/-- What deeds keep of a session between operations. -/
theorem orderly_of_path (stopped : Bool) (s t : Session) (h : s.Orderly directory settings stopped)
    (ht : t.Counted) (hpath : Path (Allowed settings) s t) :
    t.Orderly directory settings stopped where
  counted := ht
  directory := Directory.slashless_of_sameCatalog directory _ _ h.directory
    (catalog_of_path _ s t hpath)
  awake := fun hstopped => awake_of_path _ s t hpath h.counted.toSound (h.awake hstopped)
  lively := fun hsetting =>
    lively_of_path settings hsetting s t hpath h.counted.toSound (h.lively hsetting)

/-- The program of an operation keeps a session in order, up to what a shutdown leaves behind. -/
theorem orderly_program (stopped : Bool) (s : Session) (h : s.Orderly directory settings stopped)
    (operation : Operation)
    (heffort : (s.run (operation.program directory settings)).2.effort < Number.maxWord) :
    (s.run (operation.program directory settings)).2.Orderly directory settings
      (operation.stops stopped) := by
  have hreach := reaches_program directory settings s h.directory operation
  have hgoes : operation ≠ .shutdown → (s.run (operation.program directory settings)).2.Orderly
      directory settings stopped := by
    intro hoperation
    rcases (hreach hoperation).path heffort h.counted with ⟨ht, hpath⟩
    exact orderly_of_path directory settings stopped s _ h ht
      (path_mono _ s _ hpath (allowed_of_deeds settings operation))
  cases operation with
  | deploy text => exact hgoes (by simp)
  | deleteStatic targetId id => exact hgoes (by simp)
  | deleteDynamic id => exact hgoes (by simp)
  | updateStatic targetId id patch => exact hgoes (by simp)
  | respawn id => exact hgoes (by simp)
  | ingest text => exact hgoes (by simp)
  | reload =>
    -- Whatever was not awake before is awake now.
    have hbefore := hgoes (by simp)
    refine ⟨hbefore.counted, hbefore.directory, fun _ => ?_, hbefore.lively⟩
    rw [Operation.program, run_discard_program]
    rcases run_reload s h.counted.toSound with ⟨records, monitors, -, hrecords, hrun, -, -, hlive⟩
    rw [hrun]
    intro id r hr halive
    have hid := (Store.get?_of_record? _ h.counted.toSound.filed id r hr).2.1
    refine (hlive id).mpr (Or.inr (List.mem_map.mpr ⟨r, (hrecords r).mpr ?_, hid⟩))
    rw [hid]
    exact ⟨hr, halive⟩
  | shutdown =>
    rcases counted_shutdown s h.counted with ⟨hcounted, hstore, hnone⟩
    refine ⟨hcounted, ?_, ?_, fun _ id hlive => ?_⟩
    · have hsame : (s.run (Operation.program directory settings .shutdown)).2.store = s.store :=
        hstore
      rw [hsame]
      exact h.directory
    · intro hstopped
      exact nomatch hstopped
    · exact absurd hlive (by rw [Operation.program, hnone]; simp)

theorem effort_perform (s : Session) (operation : Operation) :
    s.effort ≤ (s.perform directory settings operation).effort :=
  Nat.le_trans (effort_run (operation.program directory settings) s)
    (reaches_settle settings _).effort

/-- An operation keeps a session in order, up to what a shutdown leaves behind. -/
theorem orderly_perform (stopped : Bool) (s : Session) (h : s.Orderly directory settings stopped)
    (operation : Operation)
    (heffort : (s.perform directory settings operation).effort < Number.maxWord) :
    (s.perform directory settings operation).Orderly directory settings
      (operation.stops stopped) := by
  have hsettle := reaches_settle settings (s.run (operation.program directory settings)).2
  have hfirst := orderly_program directory settings stopped s h operation
    (Nat.lt_of_le_of_lt hsettle.effort heffort)
  rcases hsettle.path heffort hfirst.counted with ⟨hcounted, hpath⟩
  exact orderly_of_path directory settings _ _ _ hfirst hcounted
    (path_mono _ _ _ hpath (allowed_of_fires settings))

theorem performAll_append (s : Session) (first second : List Operation) :
    s.performAll directory settings (first ++ second) =
      (s.performAll directory settings first).performAll directory settings second :=
  List.foldl_append

theorem performAll_singleton (s : Session) (operation : Operation) :
    s.performAll directory settings [operation] = s.perform directory settings operation := rfl

theorem effort_performAll (s : Session) (operations : List Operation) :
    s.effort ≤ (s.performAll directory settings operations).effort := by
  induction operations generalizing s with
  | nil => exact Nat.le_refl _
  | cons operation rest ih =>
    exact Nat.le_trans (effort_perform directory settings s operation) (ih _)

theorem orderly_performAll (stopped : Bool) (s : Session)
    (h : s.Orderly directory settings stopped) (operations : List Operation)
    (heffort : (s.performAll directory settings operations).effort < Number.maxWord) :
    (s.performAll directory settings operations).Orderly directory settings
      (operations.foldl Operation.stops stopped) := by
  induction operations generalizing stopped s with
  | nil => exact h
  | cons operation rest ih =>
    have hlast := effort_performAll directory settings (s.perform directory settings operation) rest
    exact ih _ _ (orderly_perform directory settings stopped s h operation
      (Nat.lt_of_le_of_lt hlast heffort)) heffort

end Operations

/-! ### Sessions from their beginning -/

theorem not_own_filterKey (name : String) : ¬ Own (filterKey name) := by
  rintro (h | h | ⟨targetId, h⟩ | ⟨text, h⟩)
  · have hchars := congrArg String.toList h
    simp [filterKey, counterKey] at hchars
  · have hchars := congrArg String.toList h
    simp [filterKey, reservationKey] at hchars
  · have hchars := congrArg String.toList h
    simp [filterKey, pipelineKey, pipelineStem] at hchars
  · have hchars := congrArg String.toList h
    simp [filterKey, PolicyRecord.keyStem] at hchars

/-- A session that begins is in order. -/
theorem orderly_of_fresh (directory : Directory) (settings : Engine.Settings) (s : Session)
    (h : s.Fresh) (hdirectory : directory.Slashless s.store) :
    s.Orderly directory settings false := by
  have hnone : ∀ name, s.store.get? (PolicyRecord.keyStem ++ name) = none := fun name =>
    h.vacant _ (Or.inr (Or.inr (Or.inr ⟨name, rfl⟩)))
  have hrecord : ∀ id, s.store.record? id = none := fun id =>
    Store.recordAt_of_get?_eq_none _ _ (hnone _)
  have hlive : ∀ id, s.monitors.isLive id = false := by
    intro id
    rw [h.monitors]
    rfl
  have hledger := Store.ledger_of_vacant _ h.vacant
  -- There is no entry, no record and no task, so that all that is said of each of them holds.
  refine ⟨⟨⟨h.unrefused, ⟨0, hledger⟩, ?_, ?_, ?_, ?_, ?_, ?_⟩, 0, Nat.zero_le _, hledger⟩,
    hdirectory, ?_, ?_⟩
  · intro targetId name text htext
    rw [Store.field?, h.vacant _ (Or.inr (Or.inr (Or.inl ⟨targetId, rfl⟩)))] at htext
    cases htext
  · intro name value hvalue
    rw [hnone] at hvalue
    cases hvalue
  · intro id r hr
    rw [hrecord] at hr
    cases hr
  · rw [h.monitors]
    exact MonitorTable.consistent_empty
  · intro serial task htask
    rw [h.monitors] at htask
    cases htask
  · intro id serial hserial
    rw [h.monitors] at hserial
    cases hserial
  · intro _ id r hr
    rw [hrecord] at hr
    cases hr
  · intro _ id hid
    rw [hlive] at hid
    cases hid

/-- Between operations monitors, observers and records belong together. -/
theorem coherent_of_orderly (directory : Directory) (settings : Engine.Settings) (stopped : Bool)
    (s : Session) (h : s.Orderly directory settings stopped) : s.Coherent settings stopped where
  recorded := by
    intro id hlive
    rcases (MonitorTable.isLive_iff _ id).mp hlive with ⟨serial, hserial⟩
    rcases h.counted.toSound.matched id serial hserial with ⟨r, -, hr, -⟩
    exact ⟨r, hr, (Store.get?_of_record? _ h.counted.toSound.filed id r hr).2.1⟩
  observed := mem_observers_iff s h.counted.toSound
  once := h.counted.toSound.tables.once
  awake := by
    intro hstopped name r hr halive
    have hname := (Store.get?_of_recordAt _ h.counted.toSound.filed name r hr).2.1
    rw [hname] at hr
    exact h.awake hstopped r.id r hr halive
  lively := h.lively

/-- A directory with one tenant. -/
def alice : Directory :=
  .fixed { names := Dict.ofList [("t1", "alice")], enabled := ["t1"] }

/-- A session that begins, with one filter in the catalog. -/
def withCompress : Session where
  backend :=
    { data := Dict.ofList [(filterKey "compress", .hash (Dict.ofList [("name", "compress")]))] }

/-- The operations of a session in which a policy fires. -/
def firedOnce : List Operation :=
  [.deploy "TENANT alice WHEN put_bw > 100 DO SET compress",
    .ingest "PUTVAL host*t1*put_bw/gauge N:200"]

/-- Nothing stands in a store under a key under which nothing was put. -/
theorem get?_ofList_eq_none (entries : List (String × StoreValue)) (key : String)
    (h : ∀ e ∈ entries, e.1 ≠ key) : (Dict.ofList entries).get? key = none := by
  rw [Dict.get?_ofList, Option.map_eq_none_iff, List.find?_eq_none]
  exact fun e he heq => h e (List.mem_reverse.mp he) (of_decide_eq_true heq)

/-- A session begins with any catalog. -/
theorem fresh_ofList (entries : List (String × StoreValue)) (h : ∀ e ∈ entries, ¬ Own e.1) :
    Fresh { backend := { data := Dict.ofList entries } } where
  unrefused := rfl
  vacant := fun key hkey => get?_ofList_eq_none entries key fun e he heq => h e he (heq ▸ hkey)
  monitors := rfl

theorem fresh_withCompress : withCompress.Fresh :=
  fresh_ofList _ fun e he => by
    rw [List.mem_singleton.mp he]
    exact not_own_filterKey "compress"

theorem slashless_alice (d : Store) : alice.Slashless d := by
  intro id name hname
  rw [Dict.get?_ofList] at hname
  by_cases hid : "t1" = id
  · subst hid
    cases hname
    exact ⟨by simp [Target.Slashless], by simp [Target.Slashless]⟩
  · simp [hid] at hname

/-- In every state that a session reaches, every live monitor has a record, the observers are
    exactly the live monitors, each once and under the tenant of its record, and the records that
    are alive have live monitors, unless a shutdown has not been followed by a reload. The ids that
    are taken on the way must fit into a machine word. -/
theorem coherent_of_run (directory : Directory) (settings : Engine.Settings) (s : Session)
    (hfresh : s.Fresh) (hdirectory : directory.Slashless s.store) (operations : List Operation)
    (heffort : (s.performAll directory settings operations).effort < Number.maxWord) :
    (s.performAll directory settings operations).Coherent settings
      (operations.foldl Operation.stops false) :=
  coherent_of_orderly directory settings _ _ (orderly_performAll directory settings false s
    (orderly_of_fresh directory settings s hfresh hdirectory) operations heffort)

/-- A policy fires, and its monitor is stopped and started again. -/
theorem coherent_of_run_reloaded :
    (withCompress.performAll alice {} (firedOnce ++ [.shutdown, .reload])).monitors.liveIds = [1] ∧
      (withCompress.performAll alice {} (firedOnce ++ [.shutdown, .reload])).Coherent {} false := by
  refine ⟨by decide +kernel, ?_⟩
  have heffort : (withCompress.performAll alice {}
      (firedOnce ++ [.shutdown, .reload])).effort = 3 := by decide +kernel
  refine coherent_of_run alice {} withCompress fresh_withCompress (slashless_alice _)
    (firedOnce ++ [.shutdown, .reload]) ?_
  rw [heffort]
  decide

end Session

end StoragePolicy
