import StoragePolicy.Api.Operation
import StoragePolicy.Proofs.Engine.Stocked
import StoragePolicy.Proofs.Registry.Aloof

/-!
# Everything that is asked of the service

Besides the operations that concern policies there are those that read, and those that change the
catalog. They leave the ids alone, and the monitors and the storage side with them. So whatever is
asked of the service, be it of policies or of the catalog, its store stays in order, each entry
stands under the id it carries, no id stays reserved, and nothing but hashes with fields stands
where the reset looks.

When monitors read what has been delivered to them does not matter for this. A session is followed
errand by errand and sample by sample, and a monitor may read a sample whenever it has been started
before.

## Main definitions

* `Session.Errand`: What is asked of the service.
* `Session.Errand.KeepsIds`: Errands that leave the ids of entries as they are.
* `Session.Reached`: The sessions that can be reached.
* `Session.Clear`, `Session.Intact`: What holds of them.

## Theorems

* `snd_run_errand`: An errand that concerns policies does what an operation does.
* `aloof_errand`: All others are aloof.
* `intact_errand`, `intact_turn`: What holds of a session holds after an errand, and after a sample.
* `intact_of_reached`: It holds of all sessions that can be reached.
-/

namespace StoragePolicy

open Registry

/-- Calls of the engine that leave the ids, the monitors and the storage side alone. -/
def Engine.Call.Aloof : Engine.Call → Prop
  | .store c => c.Aloof
  | .isLive _ => True
  | _ => False

/-- Calls of the engine that put nothing but hashes where the reset looks. -/
def Engine.Call.Neat : Engine.Call → Prop
  | .store c => c.Neat
  | _ => True

namespace Store

theorem reserves_sameGuarded (s t : Store) (h : s.SameGuarded t) (held : Option Nat)
    (hs : s.Reserves held) : t.Reserves held where
  hashed := fun key hown hne =>
    hashAt_congr_any s t key (get?_sameGuarded s t h key hown).symm (hs.hashed key hown hne)
  reservations :=
    (hashAt_congr t s _ (get?_sameGuarded s t h _ own_reservationKey)).trans hs.reservations

/-- What an aloof call puts anywhere is not where the reset looks. -/
theorem neat_of_aloof (c : Call) (h : c.Aloof) : c.Neat := by
  have hkey : ∀ key ∈ c.changed, ¬ Noticed key := fun key hmem hnoticed =>
    h key hmem (Or.inr hnoticed)
  cases c with
  | apply changes =>
    intro m hm
    have hm' := hkey m.key (List.mem_map_of_mem hm)
    cases m with
    | setField key name value => exact fun hnoticed => absurd hnoticed hm'
    | deleteField key name => exact fun hnoticed => absurd hnoticed hm'
    | delete key => trivial
    | _ => exact hm'
  | updateField key name value =>
    exact fun hnoticed => absurd hnoticed (hkey key List.mem_cons_self)
  | incrementReserving counter reservations =>
    refine ⟨hkey counter List.mem_cons_self, fun hnoticed => ?_⟩
    exact absurd hnoticed (hkey reservations (List.mem_cons_of_mem counter List.mem_cons_self))
  | _ => exact hkey

/-- Usual calls put hashes under the keys of ids, and nothing elsewhere. -/
theorem neat_of_usual (c : Call) (h : c.Usual) : c.Neat := by
  cases h with
  | sparing c hsparing => exact neat_of_sparing c hsparing
  | nextId => exact ⟨fun h => noticed_ne_counterKey _ h rfl, fun _ => own_reservationKey⟩
  | putStatic targetId e =>
    intro m hm
    simp only [List.mem_cons, List.not_mem_nil, or_false] at hm
    rcases hm with rfl | rfl
    · exact fun _ => own_pipelineKey targetId
    · exact fun _ => own_reservationKey
  | putDynamic r =>
    intro m hm
    rcases List.mem_append.mp hm with hm | hm
    · rcases List.mem_map.mp hm with ⟨field, -, rfl⟩
      exact fun _ => own_storeKey r.id
    · rw [List.mem_singleton.mp hm]
      exact fun _ => own_reservationKey
  | release id =>
    intro m hm
    rw [List.mem_singleton.mp hm]
    exact fun _ => own_reservationKey

end Store

namespace Session

/-! ### Operations put nothing but hashes where the reset looks -/

section Neat

variable (directory : Directory) (settings : Engine.Settings)

theorem neat_of_usual (c : Engine.Call) (h : c.Usual) : c.Neat := by
  cases c with
  | store c => exact Store.neat_of_usual c h
  | _ => trivial

theorem neat_updateEntry (targetId : String) (id : Nat) (patch : List (String × Json)) :
    (Engine.ofRegistry (Engine.updateEntry directory targetId id patch)).run.Makes
      Engine.Call.Neat := by
  have hread : ∀ c : Store.Call, c.changed = [] → (Engine.Call.store c).Neat := fun c hc =>
    Store.neat_of_aloof c (aloof_of_changed_eq_nil c hc)
  refine Engine.makes_ofRegistry _ _ (makes_bind _ _ _ ?_ fun entry => ?_)
  · refine makes_updateStatic _ targetId id patch (hread _ rfl) fun text m hm => ?_
    rw [List.mem_singleton.mp hm]
    exact fun _ => Store.own_pipelineKey targetId
  · refine makes_bind _ _ _ ?_ fun name => makes_pure _ _
    exact makes_bind _ _ _ (makes_names _ directory (hread _ rfl)) fun names => makes_pure _ _

theorem neat_program (operation : Operation) :
    (operation.program directory settings).Makes Engine.Call.Neat := by
  cases operation with
  | updateStatic targetId id patch =>
    exact Engine.makes_discard_program _ _ (neat_updateEntry directory targetId id patch)
  | _ =>
    exact Program.makes_mono _ _ _ (usual_program directory settings _ (by simp)) neat_of_usual

theorem telling_call (c : Engine.Call) (s : Session) (hc : c.Neat) (h : s.store.Telling) :
    (exec c s).2.store.Telling := by
  cases c with
  | store c => exact store_exec_invariant _ c s h (Store.telling_exec s.store c hc h)
  | _ => exact h

end Neat

/-! ### What holds of a session -/

/-- Each entry stands under the id it carries, no id is reserved, and nothing but hashes with fields
    stands where the reset looks. -/
structure Clear (s : Session) : Prop where
  labelled : s.store.Labelled
  unreserved : s.Reserves none
  telling : s.store.Telling

/-- The store is in order besides. -/
structure Intact (s : Session) : Prop extends s.Clear where
  stocked : s.Stocked

section Operations

variable (directory : Directory) (settings : Engine.Settings)

theorem intact_program (s : Session) (h : s.Intact) (operation : Operation)
    (hkeeps : operation.KeepsIds)
    (heffort : (s.run (operation.program directory settings)).2.effort < Number.maxWord) :
    (s.run (operation.program directory settings)).2.Intact := by
  rcases h.stocked.bound with ⟨n, -, hledger⟩
  refine ⟨⟨?_, ?_, ?_⟩, (upholds_program settings directory s operation).stocked heffort h.stocked⟩
  · exact labelled_program directory settings s h.stocked.unrefused h.stocked.legible
      hledger.pipelines operation hkeeps h.labelled
  · exact reserves_program directory settings s h.unreserved operation
  · exact run_invariant Engine.Call.Neat (fun t => t.store.Telling) telling_call _
      (neat_program directory settings operation) s h.telling

theorem clear_turn (s : Session) (h : s.Clear) (handle : MonitorHandle) (binding : MonitorBinding)
    (m : Monitor) (sample : Sample) :
    (s.run (Engine.turn settings handle binding m sample)).2.Clear := by
  have husual := Engine.usual_turn settings handle binding m sample
  refine ⟨kept_run _ labelled_call _ husual s h.labelled, ?_, ?_⟩
  · exact reserves_run none _ (Engine.spends_turn settings handle binding m sample) s h.unreserved
  · exact run_invariant Engine.Call.Neat (fun t => t.store.Telling) telling_call _
      (Program.makes_mono _ _ _ husual neat_of_usual) s h.telling

/-- A session in which a monitor has read a sample. -/
theorem intact_turn (s : Session) (h : s.Intact) (serial : Nat) (task : MonitorTask)
    (htask : s.monitors.tasks.get? serial = some task) (m : Monitor) (sample : Sample)
    (heffort : (s.run (Engine.turn settings task.handle task.binding m sample)).2.effort <
      Number.maxWord) :
    (s.run (Engine.turn settings task.handle task.binding m sample)).2.Intact where
  toClear := clear_turn settings s h.toClear _ _ m sample
  stocked := (goes_turn settings task.handle task.binding (h.stocked.sized serial task htask) m
    sample s).stocked heffort h.stocked

theorem intact_settle (s : Session) (h : s.Intact)
    (heffort : (s.settle settings).effort < Number.maxWord) : (s.settle settings).Intact where
  toClear := kept_settle settings Clear
    (fun handle binding m sample t ht => clear_turn settings t ht handle binding m sample)
    (fun _ _ ht => ⟨ht.labelled, ⟨ht.unreserved.unrefused, ht.unreserved.store⟩, ht.telling⟩) s
    h.toClear
  stocked := (upholds_settle settings s).stocked heffort h.stocked

end Operations

/-- A session that differs from another in the catalog only. -/
structure Untouched (s t : Session) : Prop where
  unrefused : t.Open
  store : s.store.SameGuarded t.store
  monitors : t.monitors = s.monitors
  storage : t.storage = s.storage

theorem untouched_run {α : Type} (p : Program Engine.interface α) (hp : p.Makes Engine.Call.Aloof)
    (s : Session) (hs : s.Open) : s.Untouched (s.run p).2 := by
  refine run_invariant Engine.Call.Aloof (fun t => s.Untouched t) (fun c t hc ht => ?_) p hp s
    ⟨hs, Store.sameGuarded_refl _, rfl, rfl⟩
  cases c with
  | store c =>
    rw [exec_store t c ht.unrefused]
    refine ⟨ht.unrefused, fun key hkey => ?_, ht.monitors, ht.storage⟩
    exact (Store.sameGuarded_exec t.store c hc key hkey).trans (ht.store key hkey)
  | isLive id => exact ht
  | _ => exact False.elim hc

theorem effort_of_untouched (s t : Session) (ht : s.Untouched t) : t.effort = s.effort := by
  rw [effort, effort, ht.monitors, ht.storage]

/-- What holds of a session does not hang on the catalog. -/
theorem stocked_of_untouched (s t : Session) (h : s.Stocked) (ht : s.Untouched t) : t.Stocked := by
  have hrecords := Store.sameRecords_sameGuarded s.store t.store ht.store
  refine ⟨ht.unrefused, ?_, Store.fitting_sameGuarded _ _ ht.store _ h.legible,
    Store.filed_sameRecords _ h.filed _ hrecords, fun id hlive => ?_, fun serial task htask => ?_⟩
  · rcases h.bound with ⟨n, hn, hledger⟩
    rw [effort_of_untouched s t ht]
    exact ⟨n, hn, Store.ledger_sameGuarded _ _ ht.store n hledger⟩
  · rw [Store.record?_sameRecords _ _ hrecords]
    rw [ht.monitors] at hlive
    exact h.recorded id hlive
  · rw [ht.monitors] at htask
    exact h.sized serial task htask

theorem reserves_of_untouched (s t : Session) (h : s.Reserves none) (ht : s.Untouched t) :
    t.Reserves none :=
  ⟨ht.unrefused, Store.reserves_sameGuarded _ _ ht.store none h.store⟩

theorem intact_of_untouched (s t : Session) (h : s.Intact) (ht : s.Untouched t) : t.Intact where
  stocked := stocked_of_untouched s t h.stocked ht
  labelled := Store.fitting_sameGuarded _ _ ht.store _ h.labelled
  unreserved := reserves_of_untouched s t h.unreserved ht
  telling := Store.telling_sameGuarded _ _ ht.store h.telling

/-- A session that begins, without anything where the reset looks. -/
theorem intact_of_fresh (s : Session) (h : s.Fresh)
    (hvacant : ∀ key, Guarded key → s.store.get? key = none) : s.Intact where
  stocked := stocked_of_fresh s h
  labelled := labelled_of_fresh s h
  unreserved := reserves_of_fresh s h
  telling := by
    intro key value hkey hvalue
    rw [hvacant key (Or.inr hkey)] at hvalue
    cases hvalue

/-! ### Errands -/

/-- What is asked of the service: a request, a filter that is entered in the catalog, or that the
    monitors are started again or stopped. -/
inductive Errand where
  | request (operation : Api.Operation)
  | register (filter : FilterSpec)
  | reload
  | shutdown

namespace Errand

/-- The program of an errand, without its answer. -/
def program (directory : Directory) (settings : Engine.Settings) :
    Errand → Program Engine.interface Unit
  | .request operation => discard (Api.perform directory settings operation)
  | .register filter => discard (Engine.ofRegistry (putFilter filter)).run
  | .reload => discard Engine.reload.run
  | .shutdown => Engine.shutdown

/-- Errands that leave the ids of entries as they are. Only an update can do otherwise. -/
def KeepsIds : Errand → Prop
  | .request (.updateEntry _ id patch) => KeepsId id patch
  | _ => True

/-- The operation that an errand comes to, if it concerns policies. -/
def operation? : Errand → Option Operation
  | .request (.deploy rules) => some (.deploy rules)
  | .request (.updateEntry targetId id patch) => some (.updateStatic targetId id patch)
  | .request (.deleteEntry targetId id) => some (.deleteStatic targetId id)
  | .request (.removePolicy id) => some (.deleteDynamic id)
  | .request (.respawn id) => some (.respawn id)
  | .request (.ingest metrics) => some (.ingest metrics)
  | .reload => some .reload
  | .shutdown => some .shutdown
  | _ => none

theorem keepsIds_of_operation? (errand : Errand) (operation : Operation)
    (h : errand.operation? = some operation) (hkeeps : errand.KeepsIds) : operation.KeepsIds := by
  cases errand with
  | request request => cases request <;> cases h <;> exact hkeeps
  | register filter => cases h
  | reload => cases h; trivial
  | shutdown => cases h; trivial

end Errand

section Errands

variable (directory : Directory) (settings : Engine.Settings)

/-- What is answered to a request does not matter for what it does. -/
theorem snd_run_respond {α : Type} (s : Session) (success : α → Http.Response) (p : Engine α) :
    (s.run (Api.respond success p)).2 = (s.run p.run).2 := by
  have hrun : s.run (Api.respond success p) = _ := run_bind s p.run _
  rw [hrun]
  cases (s.run p.run).1 <;> rfl

theorem snd_run_answer {α β : Type} (s : Session) (p : Program Engine.interface α) (f : α → β) :
    (s.run (p >>= fun a => pure (f a))).2 = (s.run p).2 := by
  rw [run_bind, run_pure]

/-- An errand that concerns policies does what an operation does. -/
theorem snd_run_errand (s : Session) (errand : Errand) (operation : Operation)
    (h : errand.operation? = some operation) :
    (s.run (errand.program directory settings)).2 =
      (s.run (operation.program directory settings)).2 := by
  cases errand with
  | request request =>
    cases request <;> cases h <;>
      simp only [Errand.program, Operation.program, Api.perform, Api.showing, Api.acknowledging,
        run_discard_program, snd_run_respond, snd_run_answer]
  | register filter => cases h
  | reload => cases h; rfl
  | shutdown => cases h; rfl

/-- An aloof program over the store is one of the engine too. -/
theorem aloof_ofRegistry {α : Type} (p : Registry α) (hp : p.run.Makes Store.Call.Aloof) :
    (Engine.ofRegistry p).run.Makes Engine.Call.Aloof := Engine.makes_ofRegistry _ p hp

theorem aloof_respond {α : Type} (success : α → Http.Response) (p : Engine α)
    (hp : p.run.Makes Engine.Call.Aloof) : (Api.respond success p).Makes Engine.Call.Aloof := by
  refine Engine.makes_after _ _ _ hp fun result => ?_
  cases result <;> exact Engine.makes_done _ _

theorem aloof_view (targetId : String) (id : Nat) (entry : StaticEntry) :
    (Engine.view directory targetId id entry).run.Makes Store.Call.Aloof := by
  refine makes_bind _ _ _ ?_ fun name => makes_pure _ _
  exact makes_bind _ _ _ (makes_names _ directory (aloof_of_changed_eq_nil _ rfl)) fun names =>
    makes_pure _ _

theorem aloof_recordViews (records : List PolicyRecord) :
    (Engine.recordViews records).Makes Engine.Call.Aloof := by
  induction records with
  | nil => exact Engine.makes_done _ _
  | cons record rest ih =>
    refine Engine.makes_after _ _ _ (Engine.makes_ask _ _ trivial) fun running => ?_
    exact Engine.makes_after _ _ _ ih fun views => Engine.makes_done _ _

theorem aloof_listDynamicViews : Engine.listDynamic.run.Makes Engine.Call.Aloof := by
  refine Engine.makes_then _ _ _ (aloof_ofRegistry _ aloof_listDynamic) fun records => ?_
  exact Engine.makes_lift _ _ (aloof_recordViews records)

theorem aloof_record (id : Nat) : (Engine.record id).run.Makes Engine.Call.Aloof := by
  refine Engine.makes_then _ _ _ (aloof_ofRegistry _ (aloof_getDynamic id)) fun stored => ?_
  cases stored with
  | none => exact Engine.makes_done _ _
  | some record =>
    refine Engine.makes_then _ _ _ (Engine.makes_lift _ _ (Engine.makes_ask _ _ trivial))
      fun running => Engine.makes_done _ _

/-- A request that does not concern policies reads, or changes the catalog. -/
theorem aloof_request (request : Api.Operation)
    (h : (Errand.request request).operation? = none) :
    (Api.perform directory settings request).Makes Engine.Call.Aloof := by
  cases request with
  | health => exact Engine.makes_done _ _
  | listStatic targetId =>
    refine aloof_respond _ _ (aloof_ofRegistry _ ?_)
    refine makes_bind _ _ _ (makes_names _ directory (aloof_of_changed_eq_nil _ rfl))
      fun names => ?_
    exact makes_bind _ _ _ (aloof_listStatic targetId) fun listed => makes_pure _ _
  | readEntry targetId id =>
    refine aloof_respond _ _ (aloof_ofRegistry _ (makes_bind _ _ _ ?_ fun stored => ?_))
    · exact aloof_read _ rfl _ fun stored => makes_ofExcept _ _
    · cases stored with
      | none => exact makes_throw _ _
      | some entry => exact aloof_view directory targetId id entry
  | listDynamic => exact aloof_respond _ _ aloof_listDynamicViews
  | readRecord id => exact aloof_respond _ _ (aloof_record id)
  | listObjectTypes => exact aloof_respond _ _ (aloof_ofRegistry _ aloof_listObjectTypes)
  | createObjectType t =>
    exact aloof_respond _ _ (aloof_ofRegistry _ (aloof_createObjectType t))
  | readObjectType name =>
    refine aloof_respond _ _ (aloof_ofRegistry _ (makes_bind _ _ _ (aloof_getObjectType name)
      fun stored => ?_))
    cases stored with
    | none => exact makes_throw _ _
    | some t => exact makes_pure _ _
  | replaceObjectType t =>
    exact aloof_respond _ _ (aloof_ofRegistry _ (aloof_replaceObjectType t))
  | deleteObjectType name =>
    exact aloof_respond _ _ (aloof_ofRegistry _ (aloof_deleteObjectType name))
  | removeExtension name extension =>
    exact aloof_respond _ _ (aloof_ofRegistry _ (aloof_removeExtension name extension))
  | listSlos => exact aloof_respond _ _ (aloof_ofRegistry _ aloof_listSlos)
  | putSlo slo =>
    exact aloof_respond _ _ (aloof_ofRegistry _ (aloof_change _
      (not_guarded_storeKey slo.filter slo.name slo.target)))
  | readSlo filter name target =>
    refine aloof_respond _ _ (aloof_ofRegistry _ (makes_bind _ _ _ ?_ fun stored => ?_))
    · exact aloof_read _ rfl _ fun stored => makes_pure _ _
    · cases stored with
      | none => exact makes_throw _ _
      | some slo => exact makes_pure _ _
  | deleteSlo filter name target =>
    refine aloof_respond _ _ (aloof_ofRegistry _ (makes_bind _ _ _
      (aloof_deleteSlo filter name target) fun existed => ?_))
    cases existed with
    | false => exact makes_throw _ _
    | true => exact makes_pure _ _
  -- The remaining requests are operations of the engine.
  | deploy rules => cases h
  | updateEntry targetId id patch => cases h
  | deleteEntry targetId id => cases h
  | removePolicy id => cases h
  | respawn id => cases h
  | ingest metrics => cases h

/-- An errand that does not concern policies leaves them alone. -/
theorem aloof_errand (errand : Errand) (h : errand.operation? = none) :
    (errand.program directory settings).Makes Engine.Call.Aloof := by
  cases errand with
  | request request =>
    exact Engine.makes_discard_program _ _ (aloof_request directory settings request h)
  | register filter =>
    exact Engine.makes_discard_program _ _ (aloof_ofRegistry _ (aloof_putFilter filter))
  | reload => cases h
  | shutdown => cases h

/-- What holds of a session holds when an errand has been attended to. -/
theorem intact_errand (s : Session) (h : s.Intact) (errand : Errand) (hkeeps : errand.KeepsIds)
    (heffort : (s.run (errand.program directory settings)).2.effort < Number.maxWord) :
    (s.run (errand.program directory settings)).2.Intact := by
  cases hoperation : errand.operation? with
  | none =>
    have haloof := aloof_errand directory settings errand hoperation
    exact intact_of_untouched s _ h (untouched_run _ haloof s h.stocked.unrefused)
  | some operation =>
    rw [snd_run_errand directory settings s errand operation hoperation] at heffort ⊢
    exact intact_program directory settings s h operation
      (errand.keepsIds_of_operation? operation hoperation hkeeps) heffort

/-- The sessions that can be reached by errands that leave the ids of entries as they are. In
    between monitors may read samples, be it single ones or all that they have got. -/
inductive Reached : Session → Prop where
  | begin (s : Session) (hfresh : s.Fresh)
    (hvacant : ∀ key, Guarded key → s.store.get? key = none) : Reached s
  | errand (s : Session) (errand : Errand) (hkeeps : errand.KeepsIds) (h : Reached s) :
    Reached (s.run (errand.program directory settings)).2
  | turn (s : Session) (serial : Nat) (task : MonitorTask) (m : Monitor) (sample : Sample)
    (htask : s.monitors.tasks.get? serial = some task) (h : Reached s) :
    Reached (s.run (Engine.turn settings task.handle task.binding m sample)).2
  | settle (s : Session) (h : Reached s) : Reached (s.settle settings)

/-- Whatever has been asked of the service, the session is intact, as long as its effort can be held
    in a machine word. -/
theorem intact_of_reached (s : Session) (h : Reached directory settings s)
    (heffort : s.effort < Number.maxWord) : s.Intact := by
  induction h with
  | begin s hfresh hvacant => exact intact_of_fresh s hfresh hvacant
  | errand s errand hkeeps _ ih =>
    have hbefore := Nat.lt_of_le_of_lt (effort_run _ s) heffort
    exact intact_errand directory settings s (ih hbefore) errand hkeeps heffort
  | turn s serial task m sample htask _ ih =>
    have hbefore := Nat.lt_of_le_of_lt (effort_run _ s) heffort
    exact intact_turn settings s (ih hbefore) serial task htask m sample heffort
  | settle s _ ih =>
    have hbefore := Nat.lt_of_le_of_lt (upholds_settle settings s).effort heffort
    exact intact_settle settings s (ih hbefore) heffort

end Errands

end Session

end StoragePolicy
