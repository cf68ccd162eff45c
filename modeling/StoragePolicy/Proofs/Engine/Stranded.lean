import StoragePolicy.Proofs.Engine.Attempts

/-!
# Reservations that stay

An id that has been taken is reserved until something is stored under it or it is given back. Under
a key that ought to hold a hash anything may be found, and then the change that stores something is
refused. A deployment of a dynamic rule gives the id back in that case. An action that sets a filter
does not: its id is stranded, and as long as it is the counter of ids is not set back.

This is the only way in which an id stays reserved, whatever the store holds. What is shown here
supposes no more than that the store refuses nothing of its own accord; without that no id could be
given back.

Nothing is known of the ids that were reserved before, and an id that is taken may be one of them,
since the counter may stand anywhere. So two states of the store are compared by the names of the
reservations.

## Main definitions

* `Session.ReservesNoMore`: No reservation has been added.
* `Session.Strands`: An action of which the id is stranded.

## Theorems

* `reserves_taken`, `reserves_given`: What taking an id and giving it back do to the reservations.
* `exec_blocked`: A change of a key that holds no hash is refused and undone.
* `reserves_storeRecord`: Storing a record ends the reservation of its id, be it stored or not.
* `run_dispatch_strands`: An action that strands an id.
* `reservesNoMore_of_run`: No other program adds a reservation.
* `not_forall_reservesNoMore`: An action may add one.
-/

namespace StoragePolicy

open Registry

namespace Registry

/-! ### Requests that are one call -/

theorem on_nextId_exec (d : Store) :
    on nextId d = (Except.mapError .store (d.exec nextIdCall).1, (d.exec nextIdCall).2) := rfl

theorem on_putStatic_exec (targetId : String) (id : Nat) (entry : StaticEntry) (d : Store) :
    on (putStatic targetId id entry) d =
      (Except.mapError .store (d.exec (putStaticCall targetId id entry)).1,
        (d.exec (putStaticCall targetId id entry)).2) := rfl

theorem on_putDynamic_exec (r : PolicyRecord) (d : Store) :
    on (putDynamic r) d =
      (Except.mapError .store (d.exec (.apply (recordChanges r))).1,
        (d.exec (.apply (recordChanges r))).2) := rfl

end Registry

namespace Store

/-- What is no hash is told apart by its key. -/
theorem hashAt_eq_error (d : Store) (key : String) (h : ¬ d.HashAt key) :
    d.hashAt key = .error (.wrongType key) := by
  cases hget : d.get? key with
  | none => exact absurd ⟨Dict.empty, by rw [hashAt, hget]⟩ h
  | some value =>
    cases value with
    | hash fields => exact absurd ⟨fields, by rw [hashAt, hget]⟩ h
    | scalar text => rw [hashAt, hget]
    | list items => rw [hashAt, hget]

theorem holds_reserved_congr (d d' : Store)
    (h : d'.get? reservationKey = d.get? reservationKey) (text : String) :
    d'.Holds text .reserved ↔ d.Holds text .reserved := by
  unfold Holds
  rw [field?_congr d' d reservationKey text h]

/-! ### Taking an id and giving it back -/

/-- An id is taken if the reservations are in a hash and the counter counts on. -/
theorem exec_nextId_counted (d d' : Store) (n : Nat) (reserved : Dict String String)
    (hreserved : d.hashAt reservationKey = .ok reserved)
    (hcount : d.increment counterKey = .ok (n, d')) :
    d.exec nextIdCall =
      (.ok n, d'.putHash reservationKey (reserved.insert (Number.writeNatural n) "")) := by
  -- Counting on leaves the reservations alone.
  have hsame : d'.hashAt reservationKey = .ok reserved := by
    refine (hashAt_congr _ _ _ ?_).trans hreserved
    exact get?_increment d d' counterKey _ n hcount counterKey_ne_reservationKey.symm
  simp only [exec, incrementReserving, hreserved, hcount,
    mutate_setField d' reservationKey _ "" reserved hsame]
  rfl

/-- If no id is taken nothing changes, and an id that is taken is reserved then. -/
theorem exec_nextId_cases (d : Store) :
    (∃ e, d.exec nextIdCall = (.error e, d)) ∨
      ∃ id d', d.exec nextIdCall = (.ok id, d') ∧ d'.HashAt reservationKey ∧
        ∀ text, d'.Holds text .reserved ↔
          d.Holds text .reserved ∨ text = Number.writeNatural id := by
  cases hreserved : d.hashAt reservationKey with
  | error e => exact Or.inl ⟨e, by simp only [exec, incrementReserving, hreserved]; rfl⟩
  | ok reserved =>
    cases hcount : d.increment counterKey with
    | error e =>
      exact Or.inl ⟨e, by simp only [exec, incrementReserving, hreserved, hcount]; rfl⟩
    | ok counted =>
      rcases counted with ⟨id, d'⟩
      refine Or.inr ⟨id, _, exec_nextId_counted d d' id reserved hreserved hcount,
        ⟨_, (hashAt_putHash _ _ _ _).trans (if_pos rfl)⟩, fun text => ?_⟩
      rw [holds_putHash_reservations, if_pos rfl, Dict.get?_insert, Holds,
        field?_of_hashAt d _ text reserved hreserved]
      by_cases htext : text = Number.writeNatural id
      · simp [htext]
      · simp [htext]

/-- Taking an id leaves the pipelines alone. -/
theorem get?_pipelineKey_nextId (d : Store) (targetId : String) :
    (d.exec nextIdCall).2.get? (pipelineKey targetId) = d.get? (pipelineKey targetId) := by
  refine get?_exec d nextIdCall _ ?_
  simp [Call.changed, pipelineKey_ne_counterKey, pipelineKey_ne_reservationKey]

theorem reserves_taken (d : Store) (id : Nat) (h : (d.exec nextIdCall).1 = .ok id) :
    (d.exec nextIdCall).2.HashAt reservationKey ∧
      ∀ text, (d.exec nextIdCall).2.Holds text .reserved ↔
        d.Holds text .reserved ∨ text = Number.writeNatural id := by
  rcases exec_nextId_cases d with ⟨e, hexec⟩ | ⟨id', d', hexec, htaken⟩
  · rw [hexec] at h
    exact nomatch h
  · rw [hexec] at h ⊢
    cases h
    exact htaken

/-- The reservation of one id has ended. -/
theorem holds_putHash_erase (d d' : Store) (reserved : Dict String String) (id : Nat)
    (h : d.hashAt reservationKey = .ok reserved) (text : String) :
    (d'.putHash reservationKey (reserved.erase (Number.writeNatural id))).Holds text .reserved ↔
      d.Holds text .reserved ∧ text ≠ Number.writeNatural id := by
  rw [holds_putHash_reservations, if_pos rfl, Dict.get?_erase, Holds,
    field?_of_hashAt d _ text reserved h]
  by_cases htext : text = Number.writeNatural id
  · simp [htext]
  · simp [htext]

/-- An id that is given back is reserved no longer, whether or not the counter is set back. -/
theorem reserves_given (d : Store) (id : Nat) (h : d.HashAt reservationKey) (text : String) :
    (on (releaseId id) d).2.Holds text .reserved ↔
      d.Holds text .reserved ∧ text ≠ Number.writeNatural id := by
  rcases h with ⟨reserved, hreserved⟩
  have hchange := on_change (release id) d _ (mutate_deleteField d _ _ reserved hreserved)
  have hreset : (on (discard Registry.resetIfVacant) (d.putHash reservationKey
      (reserved.erase (Number.writeNatural id)))).2.get? reservationKey =
      (d.putHash reservationKey (reserved.erase (Number.writeNatural id))).get?
        reservationKey := by
    refine get?_on _ _ (makes_discard _ _ (makes_resetIfVacant _ ?_)) _
    exact fun hmem => counterKey_ne_reservationKey (List.mem_singleton.mp hmem).symm
  rw [releaseId, on_bind_ok _ _ d _ () hchange, holds_reserved_congr _ _ hreset]
  exact holds_putHash_erase d d reserved id hreserved text

/-! ### Storing under a key of another kind -/

/-- Changes of which the first one meets a key that holds no hash are refused, and undone. -/
theorem exec_blocked (d : Store) (key name value : String) (rest : List Mutation)
    (h : ¬ d.HashAt key) :
    d.exec (.apply (.setField key name value :: rest)) = (.error (.wrongType key), d) := by
  have hblocked : d.mutateAll (.setField key name value :: rest) =
      (d, some (.wrongType key)) := by
    rw [mutateAll, mutate, hashAt_eq_error d key h]
    rfl
  rcases applyBatch_cases d (.setField key name value :: rest) with
    ⟨t, hall, -⟩ | ⟨t, e, hall, hrefused⟩
  · rw [hblocked] at hall
    cases hall
  · rw [hblocked] at hall
    cases hall
    exact hrefused

/-- The changes that store a record begin with a field of it. -/
theorem recordChanges_eq_cons (r : PolicyRecord) :
    ∃ name value rest, recordChanges r =
      .setField (PolicyRecord.storeKey r.id) name value :: rest := by
  unfold recordChanges
  cases hfields : r.toFields with
  | nil => exact absurd hfields (List.cons_ne_nil _ _)
  | cons field others => exact ⟨field.1, field.2, _, rfl⟩

end Store

namespace Engine

/-- Calls that do not go to the store. -/
def Call.OffStore (c : Call) : Prop := ∀ call, c ≠ .store call

theorem offStore_spawn (r : PolicyRecord) (binding : MonitorBinding) :
    (spawn r binding).run.Makes Call.OffStore := by
  unfold spawn
  cases Condition.parse r.conditionText with
  | error fault => exact makes_done _ _
  | ok condition =>
    refine makes_then Call.OffStore _ _ (makes_lift _ _ (makes_ask _ _ ?_)) fun started => ?_
    · exact fun call h => nomatch h
    · cases started with
      | none => exact makes_done _ _
      | some handle => exact makes_done _ _

end Engine

namespace Session

/-- A program without calls to the store leaves it alone. -/
theorem store_of_offStore {α : Type} (p : Program Engine.interface α)
    (hp : p.Makes Engine.Call.OffStore) (s : Session) (hopen : s.Open) :
    (s.run p).2.Open ∧ (s.run p).2.store = s.store := by
  have hbackend : (s.run p).2.backend = s.backend := by
    refine Program.run_invariant Engine.Call.OffStore exec (fun t => t.backend = s.backend) ?_ p hp
      s rfl
    intro c t hc ht
    rw [backend_exec_of_ne_store c t hc, ht]
  refine ⟨?_, congrArg Backend.data hbackend⟩
  rw [Open, hbackend]
  exact hopen

/-- No reservation has been added. -/
def ReservesNoMore (s t : Session) : Prop :=
  ∀ text, t.store.Holds text .reserved → s.store.Holds text .reserved

theorem reservesNoMore_of_store (s t : Session) (h : t.store = s.store) : s.ReservesNoMore t := by
  intro text hheld
  rw [h] at hheld
  exact hheld

/-- An action of which the id is stranded: it sets a filter that is known, an id is taken for it,
    and its target has something else where its pipeline ought to be. -/
structure Strands (s : Session) (target : Target) (action : FilterAction) (id : Nat) : Prop where
  verb : action.verb = .set
  known : ∃ filter, (on (getFilter action.filterName) s.store).1 = .ok (some filter)
  taken : (s.store.exec nextIdCall).1 = .ok id
  blocked : ¬ s.store.HashAt (pipelineKey target.id)

/-! ### Deployments of dynamic rules -/

section Dynamic

variable (s : Session) (hopen : s.Open)

include hopen

/-- Taking an id, in a session. -/
theorem run_nextId : s.run (Engine.ofRegistry nextId).run =
    (Except.mapError .store (s.store.exec nextIdCall).1,
      s.withStore (s.store.exec nextIdCall).2) := by
  rw [run_ofRegistry s _ hopen, on_nextId_exec]
  rfl

/-- The id of a record that is refused is given back, and the refusal is what it ends in. -/
theorem run_storeRecord_refused (r : PolicyRecord) (d : Store) (e : EngineError)
    (hput : on (putDynamic r) s.store = (.error e, d)) :
    s.run (Engine.storeRecord r).run = (.error e, s.withStore (on (releaseId r.id) d).2) := by
  have hattempt := run_attempt s (Engine.ofRegistry (putDynamic r))
  rw [run_ofRegistry s _ hopen, hput] at hattempt
  have hgiven := run_discard (s.withStore d)
    (Engine.attempt (Engine.ofRegistry (releaseId r.id)))
  rw [run_attempt, run_ofRegistry _ _ (open_withStore s _ hopen)] at hgiven
  rw [Engine.storeRecord, run_bind_ok s _ _ _ _ hattempt]
  dsimp only
  rw [run_bind_ok _ _ _ _ () hgiven]
  rfl

/-- Storing a record ends the reservation of its id. If the record cannot be stored the id is given
    back. -/
theorem reserves_storeRecord (r : PolicyRecord) (h : s.store.HashAt reservationKey) :
    (s.run (Engine.storeRecord r).run).2.Open ∧
      ∀ text, (s.run (Engine.storeRecord r).run).2.store.Holds text .reserved ↔
        s.store.Holds text .reserved ∧ text ≠ Number.writeNatural r.id := by
  by_cases hrecord : s.store.HashAt (PolicyRecord.storeKey r.id)
  · rcases h with ⟨reserved, hreserved⟩
    rcases hrecord with ⟨fields, hfields⟩
    have hexec := Store.exec_putDynamic s.store r fields reserved hfields hreserved
    have hput := on_putDynamic_exec r s.store
    rw [hexec] at hput
    rw [run_storeRecord s r _ hopen hput]
    exact ⟨hopen, Store.holds_putHash_erase s.store _ reserved r.id hreserved⟩
  · rcases Store.recordChanges_eq_cons r with ⟨name, value, rest, hchanges⟩
    have hblocked := Store.exec_blocked s.store _ name value rest hrecord
    rw [← hchanges] at hblocked
    have hput : on (putDynamic r) s.store =
        (.error (.store (.wrongType (PolicyRecord.storeKey r.id))), s.store) := by
      rw [on_putDynamic_exec, hblocked]
      rfl
    -- The refused change has been undone, so the reservations are still there to be ended.
    rw [run_storeRecord_refused s hopen r _ _ hput]
    refine ⟨hopen, fun text => ?_⟩
    rw [store_withStore, Store.reserves_given _ _ h]

theorem reservesNoMore_deployPairs (settings : Engine.Settings) (text conditionText : String)
    (rule : Rule) (pairs : List (Target × FilterAction × Nat)) (done : Engine.Deployment) :
    s.ReservesNoMore
      (s.run (Engine.deployPairs settings text conditionText rule pairs done).run).2 := by
  induction pairs generalizing s done with
  | nil => exact reservesNoMore_of_store s _ rfl
  | cons pair rest ih =>
    rcases pair with ⟨target, action, index⟩
    rw [Engine.deployPairs, run_bindCont, run_nextId s hopen]
    cases htaken : (s.store.exec nextIdCall).1 with
    | error e =>
      refine reservesNoMore_of_store s _ ?_
      exact Store.exec_of_refused s.store nextIdCall counterKey_ne_reservationKey e htaken
    | ok id =>
      rcases Store.reserves_taken s.store id htaken with ⟨hhash, hadded⟩
      let r := Engine.newRecord settings id text conditionText rule target action index
      rcases reserves_storeRecord (s.withStore (s.store.exec nextIdCall).2)
        (open_withStore s _ hopen) r hhash with ⟨hopen', hended⟩
      -- The reservation that has been added is the one that is ended.
      have hstored : s.ReservesNoMore ((s.withStore (s.store.exec nextIdCall).2).run
          (Engine.storeRecord r).run).2 := by
        intro name hheld
        have hname := (hended name).mp hheld
        exact ((hadded name).mp hname.1).resolve_right hname.2
      change s.ReservesNoMore ((s.withStore (s.store.exec nextIdCall).2).run
        (Engine.storeRecord r >>= fun _ => _).run).2
      rw [run_bindCont]
      generalize (s.withStore (s.store.exec nextIdCall).2).run (Engine.storeRecord r).run =
        outcome at hopen' hstored
      rcases outcome with ⟨result, t⟩
      cases result with
      | error e => exact hstored
      | ok _ =>
        have hspawn := run_attempt t (Engine.spawn r ⟨target, action, rule.objectFilter⟩)
        have hkept := store_of_offStore _
          (Engine.offStore_spawn r ⟨target, action, rule.objectFilter⟩) t hopen'
        change s.ReservesNoMore (t.run (Engine.attempt _ >>= fun _ => _).run).2
        rw [run_bind_ok t _ _ _ _ hspawn]
        generalize t.run (Engine.spawn r ⟨target, action, rule.objectFilter⟩).run = started
          at hkept
        rcases started with ⟨handle, u⟩
        have hrest : ∀ done', s.ReservesNoMore
            (u.run (Engine.deployPairs settings text conditionText rule rest done').run).2 := by
          intro done' name hheld
          have hname := ih u hkept.1 done' name hheld
          rw [show u.store = t.store from hkept.2] at hname
          exact hstored name hname
        cases handle with
        | ok handle => exact hrest _
        | error e => exact hrest _

/-- A deployment of a dynamic rule adds no reservation, whatever it meets. -/
theorem reservesNoMore_deployDynamic (settings : Engine.Settings) (text : String) (rule : Rule)
    (targets : List Target) :
    s.ReservesNoMore (s.run (Engine.deployDynamic settings text rule targets).run).2 := by
  unfold Engine.deployDynamic
  cases rule.conditionText with
  | none => exact reservesNoMore_of_store s _ rfl
  | some conditionText => exact reservesNoMore_deployPairs s hopen settings text _ rule _ {}

end Dynamic

/-! ### Actions -/

section Actions

variable (s : Session) (hopen : s.Open) (target : Target) (action : FilterAction)
  (objectFilter : Option ObjectFilter)

include hopen

/-- An action whose filter is not known changes nothing. -/
theorem run_dispatch_unknown
    (h : ∀ filter, (on (getFilter action.filterName) s.store).1 ≠ .ok (some filter)) :
    (s.run (Engine.dispatch target action objectFilter).run).2 = s := by
  cases hrequired : (on (requireFilter action.filterName) s.store).1 with
  | error e => rw [run_dispatch_missing s hopen target action objectFilter e hrequired]
  | ok filter =>
    rcases on_bind_eq_ok _ _ _ _ hrequired with ⟨known, hknown, hrest⟩
    cases known with
    | none => cases hrest
    | some known => exact absurd hknown (h known)

/-- What is left of an action that sets a filter once an id has been taken. -/
theorem run_dispatch_taken (filter : FilterSpec) (id : Nat)
    (hfilter : (on (getFilter action.filterName) s.store).1 = .ok (some filter))
    (hverb : action.verb = .set) (htaken : (s.store.exec nextIdCall).1 = .ok id) :
    s.run (Engine.dispatch target action objectFilter).run =
      (s.withStore (s.store.exec nextIdCall).2).run (do
        Engine.ofRegistry (putStatic target.id id
          (Engine.newEntry id filter.name action objectFilter))
        Engine.install target filter (Engine.newEntry id filter.name action objectFilter)
        pure (.installed id) : Engine Engine.Outcome).run := by
  have hnext := run_nextId s hopen
  rw [htaken] at hnext
  rw [run_dispatch_set s target action objectFilter filter hfilter hopen hverb, setFilter]
  exact run_bind_ok _ _ _ _ id hnext

/-- An action that strands an id fails for what it finds in place of a pipeline, and leaves its id
    reserved. -/
theorem run_dispatch_strands (id : Nat) (h : s.Strands target action id) :
    (s.run (Engine.dispatch target action objectFilter).run).1 =
        .error (.store (.wrongType (pipelineKey target.id))) ∧
      ∀ text, (s.run (Engine.dispatch target action objectFilter).run).2.store.Holds text
          .reserved ↔ s.store.Holds text .reserved ∨ text = Number.writeNatural id := by
  rcases h.known with ⟨filter, hfilter⟩
  rcases Store.reserves_taken s.store id h.taken with ⟨-, hadded⟩
  -- Taking an id does not touch the pipeline.
  have hpipeline := Store.get?_pipelineKey_nextId s.store target.id
  have hblocked : ¬ (s.store.exec nextIdCall).2.HashAt (pipelineKey target.id) :=
    fun hhash => h.blocked (Store.hashAt_congr_any _ _ _ hpipeline hhash)
  let entry := Engine.newEntry id filter.name action objectFilter
  have hrefused : (s.store.exec nextIdCall).2.exec (putStaticCall target.id id entry) =
      (.error (.wrongType (pipelineKey target.id)), (s.store.exec nextIdCall).2) :=
    Store.exec_blocked _ _ _ _ _ hblocked
  have hput := run_ofRegistry (s.withStore (s.store.exec nextIdCall).2)
    (putStatic target.id id entry) (open_withStore s _ hopen)
  rw [store_withStore, on_putStatic_exec, hrefused] at hput
  rw [run_dispatch_taken s hopen target action objectFilter filter id hfilter h.verb h.taken,
    run_bindCont, hput]
  exact ⟨rfl, hadded⟩

/-- If a target has a pipeline, an action that sets a filter stores an entry under its id. -/
theorem reservesNoMore_dispatch_taken (filter : FilterSpec) (id : Nat)
    (hfilter : (on (getFilter action.filterName) s.store).1 = .ok (some filter))
    (hverb : action.verb = .set) (htaken : (s.store.exec nextIdCall).1 = .ok id)
    (hpipe : s.store.HashAt (pipelineKey target.id)) :
    s.ReservesNoMore (s.run (Engine.dispatch target action objectFilter).run).2 := by
  rcases Store.reserves_taken s.store id htaken with ⟨⟨reserved, hreserved⟩, hadded⟩
  have hpipeline := Store.get?_pipelineKey_nextId s.store target.id
  rcases Store.hashAt_congr_any _ _ _ hpipeline.symm hpipe with ⟨fields, hfields⟩
  let entry := Engine.newEntry id filter.name action objectFilter
  have hexec := Store.exec_putStatic _ target.id id entry fields reserved hfields hreserved
  have hput := run_ofRegistry (s.withStore (s.store.exec nextIdCall).2)
    (putStatic target.id id entry) (open_withStore s _ hopen)
  rw [store_withStore, on_putStatic_exec, hexec] at hput
  rw [run_dispatch_taken s hopen target action objectFilter filter id hfilter hverb htaken,
    run_bind_ok _ _ _ _ () hput, run_bindCont, run_install]
  -- The storage side is asked when the reservation has ended, so its answer does not matter.
  have hended : ∀ t : Session, t.store = ((s.store.exec nextIdCall).2.putHash
      (pipelineKey target.id) (fields.insert (Number.writeNatural id) entry.toText)).putHash
        reservationKey (reserved.erase (Number.writeNatural id)) → s.ReservesNoMore t := by
    intro t ht text hheld
    rw [ht, Store.holds_putHash_erase _ _ reserved id hreserved] at hheld
    exact ((hadded text).mp hheld.1).resolve_right hheld.2
  refine hended _ ?_
  cases (StorageSide.receive _ _).1 <;> rfl

/-- An action that sets a filter adds no reservation unless it strands its id. -/
theorem reservesNoMore_dispatch_set (filter : FilterSpec)
    (hfilter : (on (getFilter action.filterName) s.store).1 = .ok (some filter))
    (hverb : action.verb = .set) (hno : ¬ ∃ id, s.Strands target action id) :
    s.ReservesNoMore (s.run (Engine.dispatch target action objectFilter).run).2 := by
  rcases Store.exec_nextId_cases s.store with ⟨e, hrefused⟩ | ⟨id, d, htaken, -⟩
  · have hnext := run_nextId s hopen
    rw [hrefused, withStore_store] at hnext
    rw [Engine.dispatch, run_bind_ok s s _ _ _ (run_requireFilter s action filter hfilter hopen),
      hverb]
    dsimp only
    rw [run_bindCont, hnext]
    exact reservesNoMore_of_store s _ rfl
  · replace htaken := congrArg Prod.fst htaken
    refine reservesNoMore_dispatch_taken s hopen target action objectFilter filter id hfilter hverb
      htaken ?_
    by_contra hblocked
    exact hno ⟨id, hverb, ⟨filter, hfilter⟩, htaken, hblocked⟩

/-- An action that deletes a filter takes no id. -/
theorem reservesNoMore_dispatch_delete (filter : FilterSpec)
    (hfilter : (on (getFilter action.filterName) s.store).1 = .ok (some filter))
    (hverb : action.verb = .delete) :
    s.ReservesNoMore (s.run (Engine.dispatch target action objectFilter).run).2 := by
  rw [Engine.dispatch, run_bind_ok s s _ _ _ (run_requireFilter s action filter hfilter hopen),
    hverb]
  dsimp only
  rw [run_bindCont, run_uninstall]
  cases (s.storage.receive (.uninstall target filter)).1 with
  | error e => exact reservesNoMore_of_store s _ rfl
  | ok _ =>
    intro text hheld
    change Store.Holds (Session.store ((s.withStorage _).run
      (Engine.ofRegistry (deleteMatching target.id filter.name) >>= fun _ => _).run).2) text
        .reserved at hheld
    have hdelete := run_ofRegistry
      (s.withStorage (s.storage.receive (.uninstall target filter)).2)
      (deleteMatching target.id filter.name) hopen
    rw [run_bindCont, hdelete] at hheld
    -- To delete entries changes no reservation.
    have hkept := Store.get?_deleteMatching s.store target.id filter.name reservationKey
      counterKey_ne_reservationKey.symm (pipelineKey_ne_reservationKey target.id).symm
    refine (Store.holds_reserved_congr _ _ hkept text).mp ?_
    revert hheld
    rw [store_withStorage]
    cases (on (deleteMatching target.id filter.name) s.store).1 <;> exact fun hheld => hheld

theorem reservesNoMore_dispatch (hno : ¬ ∃ id, s.Strands target action id) :
    s.ReservesNoMore (s.run (Engine.dispatch target action objectFilter).run).2 := by
  by_cases hknown : ∃ filter, (on (getFilter action.filterName) s.store).1 = .ok (some filter)
  · rcases hknown with ⟨filter, hfilter⟩
    cases hverb : action.verb with
    | set =>
      exact reservesNoMore_dispatch_set s hopen target action objectFilter filter hfilter hverb hno
    | delete =>
      exact reservesNoMore_dispatch_delete s hopen target action objectFilter filter hfilter hverb
  · simp only [not_exists] at hknown
    refine reservesNoMore_of_store s _ ?_
    rw [run_dispatch_unknown s hopen target action objectFilter hknown]

end Actions

/-- Deployments of dynamic rules add no reservation, and neither do actions, but for those that set
    a filter on a target which has something else in place of a pipeline. Of these one is added,
    that of the id which was taken. -/
theorem reservesNoMore_of_run (s : Session) (hopen : s.Open) :
    (∀ settings text rule targets,
      s.ReservesNoMore (s.run (Engine.deployDynamic settings text rule targets).run).2) ∧
    ∀ target action objectFilter,
      ((¬ ∃ id, s.Strands target action id) →
        s.ReservesNoMore (s.run (Engine.dispatch target action objectFilter).run).2) ∧
      ∀ id, s.Strands target action id →
        (s.run (Engine.dispatch target action objectFilter).run).1 =
            .error (.store (.wrongType (pipelineKey target.id))) ∧
          ∀ text, (s.run (Engine.dispatch target action objectFilter).run).2.store.Holds text
            .reserved ↔ s.store.Holds text .reserved ∨ text = Number.writeNatural id :=
  ⟨reservesNoMore_deployDynamic s hopen, fun target action objectFilter =>
    ⟨reservesNoMore_dispatch s hopen target action objectFilter,
      run_dispatch_strands s hopen target action objectFilter⟩⟩

/-- A session in which a text stands where the pipeline of a target ought to be. -/
def withoutPipeline : Session where
  backend :=
    { data := Dict.ofList
        [(filterKey "compress", .hash (Dict.ofList [("name", "compress")])),
          (pipelineKey "t1", .scalar "x")] }

theorem strands_withoutPipeline :
    withoutPipeline.Strands ⟨"t1", "alice", none⟩ ⟨.set, "compress", none, none, false, false⟩
      1 where
  verb := rfl
  known := ⟨_, rfl⟩
  taken := rfl
  blocked := by
    rintro ⟨fields, hfields⟩
    exact nomatch hfields

/-- The first id that is taken stays reserved. -/
theorem reservesNoMore_of_run_without_pipeline :
    withoutPipeline.Open ∧
      (withoutPipeline.run (Engine.dispatch ⟨"t1", "alice", none⟩
          ⟨.set, "compress", none, none, false, false⟩ none).run).1 =
        .error (.store (.wrongType "pipeline:t1")) ∧
      ∀ text, (withoutPipeline.run (Engine.dispatch ⟨"t1", "alice", none⟩
          ⟨.set, "compress", none, none, false, false⟩ none).run).2.store.Holds text .reserved ↔
        withoutPipeline.store.Holds text .reserved ∨ text = Number.writeNatural 1 :=
  ⟨rfl, ((reservesNoMore_of_run withoutPipeline rfl).2 _ _ _).2 1 strands_withoutPipeline⟩

/-- Whether an action adds a reservation is not independent of what the store holds. -/
theorem not_forall_reservesNoMore :
    ¬ ∀ s : Session, s.Open → ∀ target action objectFilter,
      s.ReservesNoMore (s.run (Engine.dispatch target action objectFilter).run).2 := by
  intro h
  have hadded := h withoutPipeline rfl ⟨"t1", "alice", none⟩
    ⟨.set, "compress", none, none, false, false⟩ none "1"
  have hheld := (run_dispatch_strands withoutPipeline rfl _ _ none 1 strands_withoutPipeline).2 "1"
  have hbefore : ¬ withoutPipeline.store.Holds "1" .reserved := fun hheld => nomatch hheld
  exact hbefore (hadded (hheld.mpr (Or.inr rfl)))

end Session

end StoragePolicy
