import StoragePolicy.Engine.Session
import StoragePolicy.Proofs.Engine.Static

/-!
# The calls of the engine

The calls that a program can make are known without running it, whatever is replied to them. To the
store the engine makes few kinds of calls that put anything there: it takes an id, it stores an
entry or a record under an id, and it gives an id back. All other calls read, delete, mark, or set
the counter back. An update of an entry is the one exception, since what it stores depends on what
it has read.

What all of these calls have in common, every operation but the update has.

## Main definitions

* `Store.Call.Usual`, `Engine.Call.Usual`: These calls.
* `Engine.Call.Quiet`: Those of them that take no id and end no reservation.
* `Engine.Call.Modest`: Those of these whose monitors store nothing but what can be held.
* `Engine.Call.Plain`: Those that neither concern the store nor start a monitor.

## Theorems

* `makes_then` and its neighbours: What programs of the engine put together can make.
* `run_invariant`: What every call of a kind keeps of a session, a program of such calls keeps.
* `own_of_usual`: Usual calls leave the catalog alone.
* `usual_deploy`, `usual_turn`, `modest_remove` and their neighbours: Operations make usual calls,
  and but for deployments and monitors that fire modest ones.
* `kept_run`, `kept_settle`: What usual calls keep, programs and monitors keep.
-/

namespace StoragePolicy

open Registry

/-! ### What programs of the engine can make -/

namespace Engine

section Makes

variable {α β : Type} (kind : Call → Prop)

theorem makes_done (a : α) : (pure a : Program interface α).Makes kind := trivial

theorem makes_ask (c : Call) (hc : kind c) : (ask c).Makes kind := ⟨hc, fun _ => trivial⟩

theorem makes_after (p : Program interface α) (f : α → Program interface β) (hp : p.Makes kind)
    (hf : ∀ a, (f a).Makes kind) : (p >>= f).Makes kind := Program.makes_bind kind p f hp hf

theorem compositional_makes : Compositional fun _ p => p.Makes kind :=
  ⟨makes_done kind, makes_after kind⟩

theorem makes_then (p : Engine α) (f : α → Engine β) (hp : p.run.Makes kind)
    (hf : ∀ a, (f a).run.Makes kind) : (p >>= f).run.Makes kind := by
  refine Program.makes_bind kind p.run _ hp fun result => ?_
  cases result with
  | ok a => exact hf a
  | error e => trivial

theorem makes_lift (p : Program interface α) (hp : p.Makes kind) :
    (ExceptT.lift p : Engine α).run.Makes kind :=
  makes_after kind p (fun a => pure (Except.ok a : Except EngineError α)) hp fun _ => trivial

theorem makes_attempt (p : Engine α) (hp : p.run.Makes kind) : (attempt p).run.Makes kind :=
  makes_lift kind p.run hp

theorem makes_discard (p : Engine α) (hp : p.run.Makes kind) :
    (discard p : Engine Unit).run.Makes kind :=
  makes_then kind p _ hp fun _ => trivial

theorem makes_discard_program (p : Program interface α) (hp : p.Makes kind) :
    (discard p : Program interface Unit).Makes kind :=
  makes_after kind p _ hp fun _ => trivial

/-- A program over the store makes the same calls as one of the engine. -/
theorem makes_ofRegistry (p : Registry α) (hp : p.run.Makes fun c => kind (.store c)) :
    (ofRegistry p).run.Makes kind := by
  have hembed : ∀ q : Program Store.interface (Except EngineError α),
      q.Makes (fun c => kind (.store c)) → (q.embed fun c => ask (.store c)).Makes kind := by
    intro q
    induction q with
    | done a => exact fun _ => trivial
    | call c next ih => exact fun hq => ⟨hq.1, fun reply => ih reply (hq.2 reply)⟩
  exact hembed p.run hp

end Makes

end Engine

/-- What every call of a kind keeps of a session, a program of such calls keeps. -/
theorem Session.run_invariant {α : Type} (kind : Engine.Call → Prop) (inv : Session → Prop)
    (hstep : ∀ c s, kind c → inv s → inv (exec c s).2) (p : Program Engine.interface α)
    (hp : p.Makes kind) (s : Session) (hs : inv s) : inv (s.run p).2 := by
  rw [run]
  exact Program.run_invariant kind _ inv hstep p hp s hs

/-! ### Usual calls -/

/-- The calls to the store that operations make. -/
inductive Store.Call.Usual : Store.Call → Prop where
  | sparing (c : Store.Call) (h : c.Sparing) : Usual c
  | nextId : Usual nextIdCall
  | putStatic (targetId : String) (e : StaticEntry) : Usual (putStaticCall targetId e.policyId e)
  | putDynamic (r : PolicyRecord) : Usual (.apply (recordChanges r))
  | release (id : Nat) : Usual (.apply [release id])

/-- Calls of the engine that are usual as far as they concern the store. -/
def Engine.Call.Usual : Engine.Call → Prop
  | .store c => c.Usual
  | _ => True

/-- Calls of the engine that are sparing as far as they concern the store. -/
def Engine.Call.Quiet : Engine.Call → Prop
  | .store c => c.Sparing
  | _ => True

/-- Quiet calls that start no monitor whose actions could store what cannot be held. -/
def Engine.Call.Modest : Engine.Call → Prop
  | .store c => c.Sparing
  | .launch _ _ binding => Engine.Sized binding.objectFilter
  | _ => True

/-- Calls of the engine that neither concern the store nor start a monitor. -/
def Engine.Call.Plain : Engine.Call → Prop
  | .store _ | .launch _ _ _ => False
  | _ => True

theorem Engine.Call.usual_of_quiet (c : Engine.Call) (h : c.Quiet) : c.Usual := by
  cases c with
  | store c => exact .sparing c h
  | _ => trivial

theorem Engine.Call.quiet_of_modest (c : Engine.Call) (h : c.Modest) : c.Quiet := by
  cases c with
  | store c => exact h
  | _ => trivial

theorem Engine.Call.modest_of_plain (c : Engine.Call) (h : c.Plain) : c.Modest := by
  cases c with
  | store c => exact False.elim h
  | launch id condition binding => exact False.elim h
  | _ => trivial

namespace Store

/-- The keys that the changes of a record concern. -/
theorem changed_recordChanges (r : PolicyRecord) (key : String)
    (h : key ∈ (Call.apply (recordChanges r)).changed) :
    key = PolicyRecord.storeKey r.id ∨ key = reservationKey := by
  rcases List.mem_map.mp h with ⟨m, hm, rfl⟩
  rcases List.mem_append.mp hm with hm | hm
  · rcases List.mem_map.mp hm with ⟨field, -, rfl⟩
    exact Or.inl rfl
  · rw [List.mem_singleton.mp hm]
    exact Or.inr rfl

/-- Usual calls change nothing of the catalog. -/
theorem own_of_usual (c : Call) (h : c.Usual) (key : String) (hmem : key ∈ c.changed) :
    Own key := by
  cases h with
  | sparing c hsparing => exact own_of_sparing c hsparing key hmem
  | nextId =>
    simp only [Call.changed, List.mem_cons, List.not_mem_nil, or_false] at hmem
    rcases hmem with rfl | rfl
    · exact Or.inl rfl
    · exact Or.inr (Or.inl rfl)
  | putStatic targetId e =>
    simp only [Call.changed, Registry.release, Mutation.key, List.map_cons, List.map_nil,
      List.mem_cons, List.not_mem_nil, or_false] at hmem
    rcases hmem with rfl | rfl
    · exact Or.inr (Or.inr (Or.inl ⟨targetId, rfl⟩))
    · exact Or.inr (Or.inl rfl)
  | putDynamic r =>
    rcases changed_recordChanges r key hmem with rfl | rfl
    · exact Or.inr (Or.inr (Or.inr ⟨_, rfl⟩))
    · exact Or.inr (Or.inl rfl)
  | release id => exact Or.inr (Or.inl (List.mem_singleton.mp hmem))

end Store

namespace Engine

/-! ### The operations -/

section Usual

variable {α : Type} (settings : Settings)

theorem modest_sparing (p : Registry α) (hp : p.run.Makes Store.Call.Sparing) :
    (ofRegistry p).run.Makes Call.Modest :=
  makes_ofRegistry Call.Modest p hp

theorem modest_idle (p : Registry α) (hp : p.run.Makes Store.Call.Idle) :
    (ofRegistry p).run.Makes Call.Modest :=
  modest_sparing p (Program.makes_mono _ _ p.run hp fun _ hc => hc.1)

theorem modest_program_of_plain (p : Program interface α) (hp : p.Makes Call.Plain) :
    p.Makes Call.Modest := Program.makes_mono _ _ p hp Call.modest_of_plain

theorem quiet_program_of_modest (p : Program interface α) (hp : p.Makes Call.Modest) :
    p.Makes Call.Quiet := Program.makes_mono _ _ p hp Call.quiet_of_modest

theorem usual_program_of_quiet (p : Program interface α) (hp : p.Makes Call.Quiet) :
    p.Makes Call.Usual := Program.makes_mono _ _ p hp Call.usual_of_quiet

theorem quiet_idle (p : Registry α) (hp : p.run.Makes Store.Call.Idle) :
    (ofRegistry p).run.Makes Call.Quiet :=
  quiet_program_of_modest _ (modest_idle p hp)

theorem usual_idle (p : Registry α) (hp : p.run.Makes Store.Call.Idle) :
    (ofRegistry p).run.Makes Call.Usual :=
  usual_program_of_quiet _ (quiet_idle p hp)

theorem usual_nextId : (ofRegistry nextId).run.Makes Call.Usual :=
  makes_ofRegistry Call.Usual nextId (makes_ask _ _ .nextId)

section Record

variable (kind : Call → Prop)

/-- A record is put, and if that fails its id is given back. -/
theorem makes_storeRecord (r : PolicyRecord) (hput : kind (.store (.apply (recordChanges r))))
    (hrelease : kind (.store (.apply [release r.id]))) (hreset : kind (.store resetCall)) :
    (storeRecord r).run.Makes kind := by
  have hstore : (ofRegistry (putDynamic r)).run.Makes kind :=
    makes_ofRegistry kind (putDynamic r) (makes_ask _ _ hput)
  have hundo : (ofRegistry (releaseId r.id)).run.Makes kind := by
    refine makes_ofRegistry kind (releaseId r.id) ?_
    refine Registry.makes_bind _ _ _ (makes_ask _ _ hrelease) fun _ => ?_
    exact Registry.makes_discard _ _ (makes_resetIfVacant _ hreset)
  refine makes_then kind _ _ (makes_attempt _ _ hstore) fun outcome => ?_
  cases outcome with
  | ok _ => exact makes_done _ _
  | error e =>
    exact makes_then kind _ _ (makes_discard _ _ (makes_attempt _ _ hundo)) fun _ => makes_done _ _

/-- All that starting the monitor of a record does is to launch it. -/
theorem makes_spawn (r : PolicyRecord) (binding : MonitorBinding)
    (hlaunch : ∀ condition, kind (.launch r.id condition binding)) :
    (spawn r binding).run.Makes kind := by
  rw [spawn]
  cases Condition.parse r.conditionText with
  | error fault => exact makes_done _ _
  | ok condition =>
    refine makes_then kind _ _ (makes_lift _ _ (makes_ask _ _ (hlaunch condition)))
      fun started => ?_
    cases started with
    | none => exact makes_done _ _
    | some handle => exact makes_done _ _

/-- For each pair of a rule an id is taken, a record is stored and its monitor is started. -/
theorem makes_deployPairs (text conditionText : String) (rule : Rule)
    (hnext : kind (.store nextIdCall)) (hstore : ∀ r, (storeRecord r).run.Makes kind)
    (hspawn : ∀ r target action, (spawn r ⟨target, action, rule.objectFilter⟩).run.Makes kind)
    (pairs : List (Target × FilterAction × Nat)) (done : Deployment) :
    (deployPairs settings text conditionText rule pairs done).run.Makes kind := by
  induction pairs generalizing done with
  | nil => exact makes_done _ _
  | cons pair rest ih =>
    rcases pair with ⟨target, action, index⟩
    refine makes_then kind _ _ (makes_ofRegistry kind nextId (makes_ask _ _ hnext)) fun id => ?_
    refine makes_then kind _ _ (hstore _) fun _ => ?_
    refine makes_then kind _ _ (makes_attempt _ _ (hspawn _ _ _)) fun outcome => ?_
    cases outcome with
    | ok handle => exact ih _
    | error e => exact ih _

end Record

theorem usual_storeRecord (r : PolicyRecord) : (storeRecord r).run.Makes Call.Usual :=
  makes_storeRecord Call.Usual r (.putDynamic r) (.release r.id) (.sparing _ ⟨rfl, rfl⟩)

theorem quiet_spawn (r : PolicyRecord) (binding : MonitorBinding) :
    (spawn r binding).run.Makes Call.Quiet :=
  makes_spawn Call.Quiet r binding fun _ => trivial

theorem usual_deployPairs (text conditionText : String) (rule : Rule)
    (pairs : List (Target × FilterAction × Nat)) (done : Deployment) :
    (deployPairs settings text conditionText rule pairs done).run.Makes Call.Usual :=
  makes_deployPairs settings Call.Usual text conditionText rule .nextId usual_storeRecord
    (fun _ _ _ => usual_program_of_quiet _ (quiet_spawn _ _)) pairs done

theorem usual_dispatch (target : Target) (action : FilterAction)
    (objectFilter : Option ObjectFilter) :
    (dispatch target action objectFilter).run.Makes Call.Usual := by
  refine makes_then Call.Usual _ _ (usual_idle _ (idle_requireFilter _)) fun filter => ?_
  cases action.verb with
  | set =>
    refine makes_then Call.Usual _ _ usual_nextId fun id => ?_
    refine makes_then Call.Usual _ _ ?_ fun _ => ?_
    · exact makes_ofRegistry Call.Usual (putStatic target.id id _)
        (makes_ask _ _ (.putStatic target.id (newEntry id filter.name action objectFilter)))
    · refine makes_then Call.Usual _ _ ?_ fun _ => makes_done _ _
      exact ⟨trivial, fun _ => trivial⟩
  | delete =>
    refine makes_then Call.Usual _ _ ⟨trivial, fun _ => trivial⟩ fun _ => ?_
    refine makes_then Call.Usual _ _ (usual_idle _ (idle_deleteMatching _ _)) fun _ => ?_
    exact makes_done _ _

theorem usual_deployLine (directory : Directory) (line : String) :
    (deployLine directory settings line).Makes Call.Usual :=
  (compositional_makes Call.Usual).holds_deployLine directory settings line
    (fun rule => usual_idle _ (idle_check directory rule))
    (fun rule conditionText _ _ _ => usual_deployPairs settings line conditionText rule _ _)
    fun _ _ _ _ => usual_dispatch _ _ _

theorem usual_deploy (directory : Directory) (text : String) :
    (deploy directory settings text).Makes Call.Usual :=
  (compositional_makes Call.Usual).holds_deploy directory settings
    (usual_deployLine settings directory) text

theorem modest_setAlive (id : Nat) (alive : Bool) :
    (ofRegistry (setAlive id alive)).run.Makes Call.Modest :=
  modest_sparing _ (sparing_setAlive id alive)

theorem modest_deleteEntry (targetId : String) (id : Nat) :
    (ofRegistry (deleteEntry targetId id)).run.Makes Call.Modest := by
  refine modest_idle _ (Registry.makes_bind _ _ _ (idle_deleteStatic targetId id) fun existed => ?_)
  cases existed with
  | true => exact Registry.makes_pure _ _
  | false => exact Registry.makes_throw _ _

theorem plain_detach (id : Nat) : (detach id).Makes Call.Plain := by
  refine makes_after Call.Plain _ _ (makes_ask _ _ trivial) fun taken => ?_
  cases taken with
  | none => exact makes_done _ _
  | some handle => exact ⟨trivial, fun _ => ⟨trivial, fun _ => trivial⟩⟩

theorem modest_detach (id : Nat) : (detach id).Makes Call.Modest :=
  modest_program_of_plain _ (plain_detach id)

theorem modest_remove (id : Nat) : (remove id).run.Makes Call.Modest := by
  refine makes_then Call.Modest _ _ (makes_lift _ _ (modest_detach id)) fun _ => ?_
  exact makes_then Call.Modest _ _ (modest_sparing _ (sparing_deleteDynamic id))
    fun _ => makes_done _ _

/-- The monitors of records are started with object filters that have been read from rules. -/
theorem modest_spawnRecorded (record : PolicyRecord) :
    (spawnRecorded record).run.Makes Call.Modest := by
  rw [spawnRecorded]
  cases hbinding : recordedBinding record with
  | error fault => exact makes_done _ _
  | ok binding =>
    refine makes_discard _ _ (makes_spawn Call.Modest record binding fun _ => ?_)
    exact sized_of_storable _ (PolicyRecord.storable_of_recordedBinding record binding hbinding)

theorem modest_reloadRecords (records : List PolicyRecord) (report : ReloadReport) :
    (reloadRecords records report).run.Makes Call.Modest := by
  induction records generalizing report with
  | nil => exact makes_done _ _
  | cons record rest ih =>
    refine makes_then Call.Modest _ _ (makes_lift _ _ (makes_ask _ _ trivial)) fun live => ?_
    cases live with
    | true => exact ih _
    | false =>
      refine makes_then Call.Modest _ _ (makes_attempt _ _ (modest_spawnRecorded record))
        fun outcome => ?_
      cases outcome with
      | ok _ => exact ih _
      | error e => exact ih _

/-- Reading all records is idle. -/
theorem idle_scanDynamic : scanDynamic.run.Makes Store.Call.Idle := by
  refine Registry.makes_bind _ _ _ (Registry.makes_ask _ _ ⟨trivial, by simp [Store.Call.changed]⟩)
    fun keys => Registry.makes_bind _ _ _ ?_ fun scan => Registry.makes_pure _ _
  induction keys with
  | nil => exact Registry.makes_pure _ _
  | cons key rest ih =>
    refine Registry.makes_bind _ _ _ (Registry.makes_ask _ _ (idle_getFields key)) fun fields => ?_
    refine Registry.makes_bind _ _ _ ih fun scan => ?_
    cases PolicyRecord.ofFields fields with
    | ok record => exact Registry.makes_pure _ _
    | error e => exact Registry.makes_pure _ _

/-- Reading one record is idle. -/
theorem idle_getDynamic (id : Nat) : (getDynamic id).run.Makes Store.Call.Idle := by
  refine Registry.makes_bind _ _ _ (Registry.makes_ask _ _ (idle_getFields _)) fun fields => ?_
  split
  · exact Registry.makes_pure _ _
  · exact Registry.makes_bind _ _ _ (Registry.makes_ofExcept _ _)
      fun record => Registry.makes_pure _ _

theorem modest_reload : reload.run.Makes Call.Modest :=
  makes_then Call.Modest _ _ (modest_idle _ idle_scanDynamic) fun _ => modest_reloadRecords _ _

theorem modest_respawn (id : Nat) : (respawn id).run.Makes Call.Modest := by
  refine makes_then Call.Modest _ _ (makes_lift _ _ (makes_ask _ _ trivial)) fun live => ?_
  cases live with
  | true => exact makes_done _ _
  | false =>
    refine makes_then Call.Modest _ _ (modest_idle _ (idle_getDynamic id)) fun stored => ?_
    cases stored with
    | none => exact makes_done _ _
    | some record =>
      refine makes_then Call.Modest _ _ (modest_spawnRecorded record) fun _ => ?_
      cases record.alive with
      | true => exact makes_done _ _
      | false => exact makes_discard _ _ (modest_setAlive id true)

theorem plain_shutdown : shutdown.Makes Call.Plain := by
  refine makes_after Call.Plain _ _ (makes_ask _ _ trivial) fun handles => ?_
  induction handles with
  | nil => exact makes_done _ _
  | cons handle rest ih => exact ⟨trivial, fun _ => ⟨trivial, fun _ => ih⟩⟩

theorem modest_shutdown : shutdown.Makes Call.Modest := modest_program_of_plain _ plain_shutdown

theorem plain_ingestLines (lines : List String) (report : IngestReport) :
    (ingestLines lines report).Makes Call.Plain := by
  induction lines generalizing report with
  | nil => exact makes_done _ _
  | cons line rest ih =>
    refine makes_after Call.Plain _ _ ?_ fun outcome => ?_
    · rw [ingestLine]
      cases Sample.parse line with
      | error e => exact makes_done _ _
      | ok sample => exact makes_lift _ _ (makes_ask _ _ trivial)
    · cases outcome with
      | ok delivered => exact ih _
      | error e => exact ih _

theorem modest_ingestLines (lines : List String) (report : IngestReport) :
    (ingestLines lines report).Makes Call.Modest :=
  modest_program_of_plain _ (plain_ingestLines lines report)

/-! ### The monitors -/

theorem modest_retire (id : Nat) : (retire settings id).Makes Call.Modest := by
  refine makes_after Call.Modest _ _ (modest_detach id) fun had => ?_
  cases had with
  | false => exact makes_done _ _
  | true =>
    cases settings.retirement with
    | markInactive => exact makes_discard_program _ _ (modest_setAlive id false)
    | delete => exact makes_discard_program _ _ (modest_sparing _ (sparing_deleteDynamic id))

theorem modest_afterPersistentFire (id : Nat) :
    (afterPersistentFire settings id).Makes Call.Modest := by
  rw [afterPersistentFire]
  cases settings.aliveAfterFire with
  | true => exact makes_done _ _
  | false => exact makes_discard_program _ _ (modest_setAlive id false)

theorem usual_turn (handle : MonitorHandle) (binding : MonitorBinding) (m : Monitor)
    (sample : Sample) : (turn settings handle binding m sample).Makes Call.Usual := by
  have hmodest : ∀ p : Program interface Unit, p.Makes Call.Modest → p.Makes Call.Usual :=
    fun p hp => usual_program_of_quiet p (quiet_program_of_modest p hp)
  exact (compositional_makes Call.Usual).holds_turn settings handle binding (makes_ask _ _ trivial)
    (usual_dispatch _ _ _) (hmodest _ (modest_retire settings _))
    (hmodest _ (modest_afterPersistentFire settings _)) m sample

end Usual

end Engine

namespace Session

/-- Monitors that have nothing to read do nothing. -/
theorem settle_of_ready (settings : Engine.Settings) (s : Session) (h : s.monitors.ready = []) :
    s.settle settings = s := by
  rcases s with ⟨backend, storage, monitors⟩
  rcases monitors with ⟨tasks, live, fanout, ready, nextSerial⟩
  cases h
  rfl

/-! ### What usual calls keep -/

section Kept

variable (settings : Engine.Settings) (inv : Session → Prop)

/-- What usual calls keep, a program of them keeps. -/
theorem kept_run {α : Type}
    (hcall : ∀ c s, Engine.Call.Usual c → inv s → inv (exec c s).2)
    (p : Program Engine.interface α) (hp : p.Makes Engine.Call.Usual) (s : Session) (hs : inv s) :
    inv (s.run p).2 :=
  run_invariant Engine.Call.Usual inv hcall p hp s hs

variable (hturn : ∀ handle binding m sample s, inv s →
  inv (s.run (Engine.turn settings handle binding m sample)).2)

include hturn

theorem kept_serve (handle : MonitorHandle) (binding : MonitorBinding) (queue : List Sample)
    (m : Monitor) (s : Session) (hs : inv s) :
    inv (serve settings handle binding queue m s).2 :=
  goes_serve (fun s t => inv s → inv t) (fun _ h => h) (fun _ _ _ h h' ht => h' (h ht)) settings
    handle binding (fun m sample s => hturn handle binding m sample s) queue m s hs

variable (htasks : ∀ s monitors, inv s → inv (s.withMonitors monitors))

include htasks

/-- What the turns of monitors keep and what does not hang on the monitors is kept when these
    run. -/
theorem kept_settle (s : Session) (hs : inv s) : inv (s.settle settings) := by
  have htask : ∀ (t : Session) (serial : Nat), inv t → inv (t.runTask settings serial) := by
    intro t serial ht
    rw [runTask]
    cases t.monitors.tasks.get? serial with
    | none => exact ht
    | some task =>
      dsimp only
      split
      · exact ht
      · exact htasks _ _ (kept_serve settings inv hturn _ _ _ _ t ht)
  exact goes_runTasks (fun s t => inv s → inv t) (fun _ h => h) (fun _ _ _ h h' ht => h' (h ht))
    settings htask _ _ (htasks s { s.monitors with ready := [] } hs)

end Kept

end Session

end StoragePolicy
