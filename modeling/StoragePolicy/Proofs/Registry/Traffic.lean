import StoragePolicy.Proofs.Registry.Kinds
import StoragePolicy.Proofs.Registry.Requests

/-!
# Requests side by side

The registry serves many requests at a time. Each is a program of several calls to the store, and
between two calls of one request calls of others are made. A schedule says in which order requests
arrive and whose call is made next; what is said here holds for all schedules, and so also for the
state of the store in the middle of a request.

Every request goes by the kinds of the keys, whatever its arguments are. So from an empty store no
schedule leads to a key that holds what does not belong there, and no request is refused for what it
finds: a list of the keys that begin with a stem is the only reply on which the kind of a later
call depends.

## Main definitions

* `EngineError.Misfit`: Refusals for the kind of what is found under a key.
* `Program.Suits`: Programs that go by the kinds and do not end in such a refusal.
* `RegistryRequest`: The requests to the registry, those about the catalog included.
* `Traffic`: A store with the requests that are being served.
* `Traffic.step`, `Traffic.run`: What a schedule does.

## Theorems

* `suits_bind` and its neighbours: Programs put together.
* `suits_program`: Every request goes by the kinds.
* `orderly_step`: The next call of a request keeps the kinds.
* `run_serve`: A request that is served alone is a schedule.
* `kinded_of_run`: Every schedule keeps the kinds, and no request is refused for them.
-/

namespace StoragePolicy

open Registry

/-- Refusals for the kind of what is found under a key. -/
def EngineError.Misfit : EngineError → Prop
  | .store (.wrongType _) => True
  | .store (.notACounter _) => True
  | _ => False

/-- Programs that go by the kinds, if they are replied to as the store does. They end in a value
    with a property, or in an error that is no misfit. -/
def Program.Suits {α : Type} (good : α → Prop) :
    Program Store.interface (Except EngineError α) → Prop
  | .done (.ok a) => good a
  | .done (.error e) => ¬ e.Misfit
  | .call c next => c.Suits ∧ ∀ answer, c.Told answer → (next (.ok answer)).Suits good

namespace Registry

variable {α β : Type} (good : α → Prop) (other : β → Prop)

/-! ### Programs put together -/

theorem suits_bind (p : Registry α) (f : α → Registry β) (hp : p.run.Suits good)
    (hf : ∀ a, good a → (f a).run.Suits other) : (p >>= f).run.Suits other := by
  have hchain : ∀ q : Program Store.interface (Except EngineError α), q.Suits good →
      (q.bind (ExceptT.bindCont f)).Suits other := by
    intro q
    induction q with
    | done result =>
      intro hq
      cases result with
      | ok a => exact hf a hq
      | error e => exact hq
    | call c next ih =>
      intro hq
      exact ⟨hq.1, fun answer htold => ih _ (hq.2 answer htold)⟩
  exact hchain p.run hp

theorem suits_throw (e : EngineError) (he : ¬ e.Misfit) :
    (throw e : Registry α).run.Suits good := he

theorem suits_ofExcept (result : Except EngineError α)
    (h : ∀ e, result = .error e → ¬ e.Misfit) :
    (ofExcept result).run.Suits fun a => result = .ok a := by
  cases result with
  | ok a => exact rfl
  | error e => exact h e rfl

theorem suits_ask (c : Store.Call) (hc : c.Suits) : (ask c).run.Suits c.Told :=
  ⟨hc, fun _ htold => htold⟩

/-- A call whose answer does not matter for what is called later. -/
theorem suits_ask_any (c : Store.Call) (hc : c.Suits) : (ask c).run.Suits fun _ => True :=
  ⟨hc, fun _ _ => trivial⟩

/-- A single change. -/
theorem suits_change (m : Mutation) (hm : m.Suits) : (change m).run.Suits fun _ => True := by
  refine suits_ask_any _ fun m' hm' => ?_
  rw [List.mem_singleton.mp hm']
  exact hm

theorem suits_discard (p : Registry α) (hp : p.run.Suits good) :
    (discard p).run.Suits fun _ => True :=
  suits_bind good _ p (fun _ => pure ()) hp fun _ _ => trivial

end Registry

/-! ### The requests -/

/-- A request to the registry: one about ids, entries and records, or one about the catalog. -/
inductive RegistryRequest where
  | policies (r : Request)
  | scanDynamic
  | putFilter (filter : FilterSpec)
  | getFilter (name : String)
  | listObjectTypes
  | getObjectType (name : String)
  | createObjectType (t : ObjectType)
  | replaceObjectType (t : ObjectType)
  | deleteObjectType (name : String)
  | removeExtension (name extension : String)
  | listSlos
  | putSlo (slo : Slo)
  | getSlo (filter name target : String)
  | deleteSlo (filter name target : String)

namespace RegistryRequest

/-- The type of the answer to a request. -/
def Answer : RegistryRequest → Type
  | .policies r => r.Answer
  | .scanDynamic => Scan
  | .putFilter _ => Unit
  | .getFilter _ => Option FilterSpec
  | .listObjectTypes => List ObjectType
  | .getObjectType _ => Option ObjectType
  | .createObjectType _ => Unit
  | .replaceObjectType _ => Unit
  | .deleteObjectType _ => Unit
  | .removeExtension _ _ => Unit
  | .listSlos => List Slo
  | .putSlo _ => Unit
  | .getSlo _ _ _ => Option Slo
  | .deleteSlo _ _ _ => Bool

/-- The program that serves a request. -/
def program : (r : RegistryRequest) → Registry r.Answer
  | .policies r => r.program
  | .scanDynamic => Registry.scanDynamic
  | .putFilter filter => Registry.putFilter filter
  | .getFilter name => Registry.getFilter name
  | .listObjectTypes => Registry.listObjectTypes
  | .getObjectType name => Registry.getObjectType name
  | .createObjectType t => Registry.createObjectType t
  | .replaceObjectType t => Registry.replaceObjectType t
  | .deleteObjectType name => Registry.deleteObjectType name
  | .removeExtension name extension => Registry.removeExtension name extension
  | .listSlos => Registry.listSlos
  | .putSlo slo => Registry.putSlo slo
  | .getSlo filter name target => Registry.getSlo filter name target
  | .deleteSlo filter name target => Registry.deleteSlo filter name target

end RegistryRequest

namespace Registry

/-! ### Ids -/

theorem suits_release (id : Nat) : (release id).Suits := Keeps.reservations

theorem suits_resetIfVacant : resetIfVacant.run.Suits fun _ => True :=
  suits_ask_any _ Keeps.counter

/-- The end of every deletion: the counter is set back if it may, and the answer is given. -/
theorem suits_reset_then {α : Type} (a : α) :
    (do discard resetIfVacant; pure a : Registry α).run.Suits fun _ => True :=
  suits_bind _ _ _ _ (suits_discard _ _ suits_resetIfVacant) fun _ _ => trivial

/-! ### Entries -/

/-- A text that is no entry is told apart from a key of another kind. -/
theorem not_misfit_of_readEntry (key text : String) (e : EngineError)
    (h : readEntry key text = .error e) : ¬ e.Misfit := by
  unfold readEntry at h
  split at h
  · exact nomatch h
  · cases h
    exact id

theorem not_misfit_of_patchedEntry (key text : String) (patch : List (String × Json))
    (e : EngineError) (h : patchedEntry key text patch = .error e) : ¬ e.Misfit := by
  unfold patchedEntry at h
  split at h
  · cases h
    exact id
  · split at h
    · exact nomatch h
    · cases h
      exact id

theorem not_misfit_of_readEntries (key : String) (texts : List String) (e : EngineError)
    (h : texts.mapM (readEntry key) = .error e) : ¬ e.Misfit := by
  rcases (Outcome.mapM_eq_error _ _ _).mp h with ⟨-, text, -, -, -, hread⟩
  exact not_misfit_of_readEntry key text e hread

theorem suits_getStatic (targetId : String) (id : Nat) :
    (getStatic targetId id).run.Suits fun _ => True := by
  refine suits_bind _ _ _ _ (suits_ask_any _ (Keeps.pipeline targetId)) fun stored _ => ?_
  cases stored with
  | none => exact trivial
  | some text =>
    cases hread : readEntry (pipelineKey targetId) text with
    | ok entry =>
      rw [Option.mapM_some, hread]
      exact trivial
    | error e =>
      rw [Option.mapM_some, hread]
      exact not_misfit_of_readEntry _ text e hread

theorem suits_updateStatic (targetId : String) (id : Nat) (patch : List (String × Json)) :
    (updateStatic targetId id patch).run.Suits fun _ => True := by
  refine suits_bind _ _ _ _ (suits_ask_any _ (Keeps.pipeline targetId)) fun stored _ => ?_
  cases stored with
  | none => exact suits_throw _ _ (fun h => h)
  | some text =>
    refine suits_bind _ _ _ _
      (suits_ofExcept _ fun e => not_misfit_of_patchedEntry _ text patch e) fun entry _ => ?_
    exact suits_bind _ _ _ _ (suits_change _ (Keeps.pipeline targetId)) fun _ _ => trivial

theorem suits_deleteStatic (targetId : String) (id : Nat) :
    (deleteStatic targetId id).run.Suits fun _ => True := by
  refine suits_bind _ _ _ _ (suits_ask_any _ (Keeps.pipeline targetId)) fun stored _ => ?_
  cases stored with
  | none => exact suits_reset_then _
  | some text =>
    exact suits_bind _ _ _ _ (suits_change _ (Keeps.pipeline targetId)) fun _ _ =>
      suits_reset_then _

theorem suits_deleteFields (key : String) (ids : List Nat) (hkey : Keeps .hash key) :
    (deleteFields key ids).run.Suits fun _ => True := by
  induction ids with
  | nil => exact trivial
  | cons id rest ih => exact suits_bind _ _ _ _ (suits_change _ hkey) fun _ _ => ih

theorem suits_entriesOf (targetId : String) :
    (entriesOf targetId).run.Suits fun _ => True := by
  refine suits_bind _ _ _ _ (suits_ask_any _ (Keeps.pipeline targetId)) fun fields _ => ?_
  exact suits_bind _ _ _ _ (suits_ofExcept _ fun e => not_misfit_of_readEntries _ _ e)
    fun _ _ => trivial

theorem suits_deleteMatching (targetId filterName : String) :
    (deleteMatching targetId filterName).run.Suits fun _ => True := by
  refine suits_bind _ _ _ _ (suits_entriesOf targetId) fun entries _ => ?_
  refine suits_bind _ _ _ _ (suits_deleteFields _ _ (Keeps.pipeline targetId)) fun _ _ => ?_
  exact suits_reset_then _

theorem suits_entriesOfAll (targets : List String) :
    (entriesOfAll targets).run.Suits fun _ => True := by
  induction targets with
  | nil => exact trivial
  | cons targetId rest ih =>
    refine suits_bind _ _ _ _ (suits_entriesOf targetId) fun entries _ => ?_
    exact suits_bind _ _ _ _ ih fun _ _ => trivial

/-- Which targets are listed does not matter: the key of a pipeline is put together anew. -/
theorem suits_listStatic (targetId : Option String) :
    (listStatic targetId).run.Suits fun _ => True := by
  have hlist : ∀ targets : List String, (do
      let listed ← entriesOfAll targets
      return inOrder (fun e => e.2.executionOrder) listed :
        Registry (List (String × StaticEntry))).run.Suits fun _ => True :=
    fun targets => suits_bind _ _ _ _ (suits_entriesOfAll targets) fun _ _ => trivial
  cases targetId with
  | some targetId => exact hlist [targetId]
  | none =>
    exact suits_bind _ _ _ _ (suits_ask_any _ trivial) fun keys _ =>
      hlist (keys.map (dropStem pipelineStem))

/-! ### Records -/

theorem suits_putDynamic (record : PolicyRecord) :
    (putDynamic record).run.Suits fun _ => True := by
  refine suits_ask_any _ fun m hm => ?_
  rcases List.mem_append.mp hm with hm | hm
  · rcases List.mem_map.mp hm with ⟨field, -, rfl⟩
    exact Keeps.record _
  · rw [List.mem_singleton.mp hm]
    exact suits_release record.id

theorem suits_getDynamic (id : Nat) : (getDynamic id).run.Suits fun _ => True := by
  refine suits_bind _ _ _ _ (suits_ask_any _ (Keeps.record _)) fun fields _ => ?_
  split
  · exact trivial
  · refine suits_bind _ _ _ _ (suits_ofExcept _ fun e he => ?_) fun _ _ => trivial
    cases hrecord : PolicyRecord.ofFields fields with
    | ok record => rw [hrecord] at he; exact nomatch he
    | error fault => rw [hrecord] at he; cases he; exact fun h => h

theorem suits_deleteDynamic (id : Nat) : (deleteDynamic id).run.Suits fun _ => True := by
  refine suits_bind _ _ _ _ (suits_ask_any _ trivial) fun existed _ => ?_
  cases existed with
  | true =>
    exact suits_bind _ _ _ _ (suits_change _ trivial) fun _ _ => suits_reset_then _
  | false => exact suits_reset_then _

theorem suits_scanKeys (keys : List String)
    (hkeys : ∀ key ∈ keys, ∃ rest, key = PolicyRecord.keyStem ++ rest) :
    (scanKeys keys).run.Suits fun _ => True := by
  induction keys with
  | nil => exact trivial
  | cons key rest ih =>
    -- The key has been found by its stem, so it is the key of a record.
    have hkey : Keeps .hash key := by
      rcases hkeys key List.mem_cons_self with ⟨name, rfl⟩
      exact Keeps.record name
    refine suits_bind _ _ _ _ (suits_ask_any _ hkey) fun fields _ => ?_
    have hrest := ih fun k hk => hkeys k (List.mem_cons_of_mem key hk)
    refine suits_bind _ _ _ _ hrest fun scan _ => ?_
    split <;> exact trivial

theorem suits_scanDynamic : scanDynamic.run.Suits fun _ => True := by
  refine suits_bind _ _ _ _ (suits_ask _ trivial) fun keys hkeys => ?_
  exact suits_bind _ _ _ _ (suits_scanKeys keys hkeys) fun _ _ => trivial

/-! ### Filters, object types and objectives -/

theorem suits_putFilter (filter : FilterSpec) : (putFilter filter).run.Suits fun _ => True := by
  refine suits_ask_any _ fun m hm => ?_
  rcases List.mem_map.mp hm with ⟨field, -, rfl⟩
  exact Keeps.filter filter.name

theorem suits_getFilter (name : String) : (getFilter name).run.Suits fun _ => True := by
  refine suits_bind _ _ _ _ (suits_ask_any _ (Keeps.filter name)) fun fields _ => ?_
  split <;> exact trivial

theorem suits_objectTypesOf (keys : List String)
    (hkeys : ∀ key ∈ keys, ∃ rest, key = objectTypeStem ++ rest) :
    (objectTypesOf keys).run.Suits fun _ => True := by
  induction keys with
  | nil => exact trivial
  | cons key rest ih =>
    have hkey : Keeps .list key := by
      rcases hkeys key List.mem_cons_self with ⟨name, rfl⟩
      exact Keeps.objectType name
    refine suits_bind _ _ _ _ (suits_ask_any _ hkey) fun extensions _ => ?_
    exact suits_bind _ _ _ _ (ih fun k hk => hkeys k (List.mem_cons_of_mem key hk))
      fun _ _ => trivial

theorem suits_getObjectType (name : String) :
    (getObjectType name).run.Suits fun _ => True := by
  refine suits_bind _ _ _ _ (suits_ask_any _ (Keeps.objectType name)) fun extensions _ => ?_
  split <;> exact trivial

theorem not_misfit_of_checkObjectType (t : ObjectType) (e : EngineError)
    (h : checkObjectType t = .error e) : ¬ e.Misfit := by
  unfold checkObjectType at h
  split at h
  · cases h
    exact fun h => h
  · split at h
    · cases h
      exact fun h => h
    · exact nomatch h

theorem suits_createObjectType (t : ObjectType) :
    (createObjectType t).run.Suits fun _ => True := by
  refine suits_bind _ _ _ _ (suits_ofExcept _ fun e => not_misfit_of_checkObjectType t e)
    fun _ _ => ?_
  refine suits_bind _ _ _ _ (suits_ask_any _ trivial) fun existed _ => ?_
  cases existed with
  | true => exact fun h => h
  | false => exact suits_change _ (Keeps.objectType t.name)

theorem suits_replaceObjectType (t : ObjectType) :
    (replaceObjectType t).run.Suits fun _ => True := by
  refine suits_bind _ _ _ _ (suits_ofExcept _ fun e => not_misfit_of_checkObjectType t e)
    fun _ _ => ?_
  refine suits_bind _ _ _ _ (suits_ask_any _ trivial) fun existed _ => ?_
  cases existed with
  | false => exact fun h => h
  | true =>
    refine suits_ask_any _ fun m hm => ?_
    rcases List.mem_cons.mp hm with rfl | hm
    · exact trivial
    · rw [List.mem_singleton.mp hm]
      exact Keeps.objectType t.name

theorem suits_deleteObjectType (name : String) :
    (deleteObjectType name).run.Suits fun _ => True := by
  refine suits_bind _ _ _ _ (suits_ask_any _ trivial) fun existed _ => ?_
  cases existed with
  | false => exact fun h => h
  | true => exact suits_change _ trivial

theorem suits_removeExtension (name extension : String) :
    (removeExtension name extension).run.Suits fun _ => True := by
  refine suits_bind _ _ _ _ (suits_ask_any _ (Keeps.objectType name)) fun extensions _ => ?_
  by_cases hknown : extensions.contains extension = true
  · simp only [hknown]
    exact suits_change _ (Keeps.objectType name)
  · simp only [hknown]
    exact fun h => h

theorem suits_slosOf (keys : List String)
    (hkeys : ∀ key ∈ keys, ∃ rest, key = Slo.keyStem ++ rest) :
    (slosOf keys).run.Suits fun _ => True := by
  induction keys with
  | nil => exact trivial
  | cons key rest ih =>
    have hrest := ih fun k hk => hkeys k (List.mem_cons_of_mem key hk)
    have hkey : Keeps .scalar key := by
      rcases hkeys key List.mem_cons_self with ⟨name, rfl⟩
      exact Keeps.objective name
    unfold slosOf
    split
    · exact hrest
    · refine suits_bind _ _ _ _ (suits_ask_any _ hkey) fun stored _ => ?_
      refine suits_bind _ _ _ _ hrest fun others _ => ?_
      cases stored with
      | none => exact trivial
      | some value => exact trivial

/-- The three parts of the key of an objective are a text behind its stem. -/
theorem keeps_storeKey (filter name target : String) :
    Keeps .scalar (Slo.storeKey filter name target) := by
  have hkey : Slo.storeKey filter name target =
      Slo.keyStem ++ (filter ++ (":" ++ (name ++ (":" ++ target)))) := by
    simp only [Slo.storeKey, String.append_assoc]
  rw [hkey]
  exact Keeps.objective _

/-! ### Every request -/

theorem suits_request (r : Request) : r.program.run.Suits fun _ => True := by
  cases r with
  | nextId => exact suits_ask_any _ ⟨Keeps.counter, Keeps.reservations⟩
  | releaseId id =>
    exact suits_bind _ _ _ _ (suits_change _ (suits_release id)) fun _ _ =>
      suits_discard _ _ suits_resetIfVacant
  | resetIfVacant => exact suits_resetIfVacant
  | putStatic targetId id entry =>
    refine suits_ask_any _ fun m hm => ?_
    rcases List.mem_cons.mp hm with rfl | hm
    · exact Keeps.pipeline targetId
    · rw [List.mem_singleton.mp hm]
      exact suits_release id
  | getStatic targetId id => exact suits_getStatic targetId id
  | updateStatic targetId id patch => exact suits_updateStatic targetId id patch
  | deleteStatic targetId id => exact suits_deleteStatic targetId id
  | deleteMatching targetId filterName => exact suits_deleteMatching targetId filterName
  | listStatic targetId => exact suits_listStatic targetId
  | putDynamic record => exact suits_putDynamic record
  | getDynamic id => exact suits_getDynamic id
  | setAlive id alive => exact suits_ask_any _ (Keeps.record _)
  | deleteDynamic id => exact suits_deleteDynamic id
  | listDynamic => exact suits_bind _ _ _ _ suits_scanDynamic fun _ _ => trivial

/-- Every request goes by the kinds of the keys. -/
theorem suits_program (r : RegistryRequest) : r.program.run.Suits fun _ => True := by
  cases r with
  | policies r => exact suits_request r
  | scanDynamic => exact suits_scanDynamic
  | putFilter filter => exact suits_putFilter filter
  | getFilter name => exact suits_getFilter name
  | listObjectTypes =>
    exact suits_bind _ _ _ _ (suits_ask _ trivial) fun keys hkeys =>
      suits_objectTypesOf keys hkeys
  | getObjectType name => exact suits_getObjectType name
  | createObjectType t => exact suits_createObjectType t
  | replaceObjectType t => exact suits_replaceObjectType t
  | deleteObjectType name => exact suits_deleteObjectType name
  | removeExtension name extension => exact suits_removeExtension name extension
  | listSlos =>
    exact suits_bind _ _ _ _ (suits_ask _ trivial) fun keys hkeys => suits_slosOf keys hkeys
  | putSlo slo => exact suits_change _ (keeps_storeKey slo.filter slo.name slo.target)
  | getSlo filter name target =>
    exact suits_bind _ _ _ _ (suits_ask_any _ (keeps_storeKey filter name target))
      fun _ _ => trivial
  | deleteSlo filter name target =>
    refine suits_bind _ _ _ _ (suits_ask_any _ trivial) fun existed _ => ?_
    exact suits_bind _ _ _ _ (suits_change _ trivial) fun _ _ => trivial

end Registry

/-! ### Schedules -/

/-- A request that is being served: what is left of its program. -/
structure Underway where
  request : RegistryRequest
  rest : Program Store.interface (Except EngineError request.Answer)

/-- A request with its answer. -/
abbrev Served : Type := (r : RegistryRequest) × Except EngineError r.Answer

/-- A store with the requests that are being served, and those that have been. -/
structure Traffic where
  store : Store := Dict.empty
  underway : List Underway := []
  served : List Served := []

namespace Traffic

/-- What a schedule consists of. -/
inductive Event where
  /-- A request arrives. -/
  | arrive (r : RegistryRequest)
  /-- The request in a place makes its next call, or is answered if it has none. -/
  | turn (place : Nat)

/-- What becomes of the traffic when a request has its turn. -/
def advance (t : Traffic) (place : Nat) : Underway → Traffic
  | ⟨r, .call c next⟩ =>
    { t with
      store := (t.store.exec c).2
      underway := t.underway.set place ⟨r, next (t.store.exec c).1⟩ }
  | ⟨r, .done result⟩ =>
    { t with underway := t.underway.eraseIdx place, served := t.served ++ [⟨r, result⟩] }

/-- A step of a schedule. -/
def step (t : Traffic) : Event → Traffic
  | .arrive r => { t with underway := t.underway ++ [⟨r, r.program.run⟩] }
  | .turn place =>
    match t.underway[place]? with
    | none => t
    | some u => t.advance place u

/-- What a schedule makes of the traffic. -/
def run (t : Traffic) (schedule : List Event) : Traffic := schedule.foldl step t

theorem run_append (t : Traffic) (first second : List Event) :
    t.run (first ++ second) = (t.run first).run second := List.foldl_append

/-- The store keeps the kinds, so do the requests in what is left of them, and none of those that
    have been served was refused for the kind of what it found. -/
structure Orderly (t : Traffic) : Prop where
  kinded : t.store.Kinded
  underway : ∀ u ∈ t.underway, u.rest.Suits fun _ => True
  served : ∀ a ∈ t.served, ∀ e, a.2 = .error e → ¬ e.Misfit

theorem orderly_empty : ({} : Traffic).Orderly where
  kinded := Store.kinded_empty
  underway := fun _ hu => nomatch hu
  served := fun _ ha => nomatch ha

/-- The next call of a request keeps the kinds, and its answer is no misfit. -/
theorem orderly_advance (t : Traffic) (place : Nat) (u : Underway) (h : t.Orderly)
    (hu : u ∈ t.underway) : (t.advance place u).Orderly := by
  have hsuits := h.underway u hu
  rcases u with ⟨r, rest⟩
  cases rest with
  | done result =>
    refine ⟨h.kinded, fun v hv => h.underway v (List.mem_of_mem_eraseIdx hv), ?_⟩
    intro a ha e he
    rcases List.mem_append.mp ha with ha | ha
    · exact h.served a ha e he
    · rw [List.mem_singleton.mp ha] at he
      rw [show result = .error e from he] at hsuits
      exact hsuits
  | call c next =>
    rcases Store.exec_kinded h.kinded c hsuits.1 with ⟨answer, s, hexec, htold, hs⟩
    have hadvance : t.advance place ⟨r, .call c next⟩ =
        { t with store := s, underway := t.underway.set place ⟨r, next (.ok answer)⟩ } := by
      simp only [advance, hexec]
    rw [hadvance]
    refine ⟨hs, fun v hv => ?_, h.served⟩
    -- Only the request whose turn it was has changed.
    rcases List.mem_or_eq_of_mem_set hv with hv | rfl
    · exact h.underway v hv
    · exact hsuits.2 answer htold

theorem orderly_step (t : Traffic) (e : Event) (h : t.Orderly) : (t.step e).Orderly := by
  cases e with
  | arrive r =>
    refine ⟨h.kinded, fun u hu => ?_, h.served⟩
    rcases List.mem_append.mp hu with hu | hu
    · exact h.underway u hu
    · rw [List.mem_singleton.mp hu]
      exact suits_program r
  | turn place =>
    cases hplace : t.underway[place]? with
    | none => simpa only [step, hplace] using h
    | some u =>
      simpa only [step, hplace] using orderly_advance t place u h (List.mem_of_getElem? hplace)

theorem orderly_run (t : Traffic) (schedule : List Event) (h : t.Orderly) :
    (t.run schedule).Orderly := by
  induction schedule generalizing t with
  | nil => exact h
  | cons e rest ih => exact ih (t.step e) (orderly_step t e h)

/-- From an empty store every schedule of requests keeps the kinds of the keys, and no request is
    refused for the kind of what it finds. -/
theorem kinded_of_run (schedule : List Event) :
    (run {} schedule).store.Kinded ∧
      ∀ a ∈ (run {} schedule).served, ∀ e, a.2 = .error e → ¬ e.Misfit := by
  have h := orderly_run {} schedule orderly_empty
  exact ⟨h.kinded, h.served⟩

/-- The calls of two requests made in turns: one takes an id, which the other gives back. -/
example : (run {} [.arrive (.policies .nextId), .arrive (.policies (.releaseId 1)), .turn 0,
    .turn 1, .turn 1, .turn 1, .turn 0]).served =
      [⟨.policies (.releaseId 1), .ok ()⟩, ⟨.policies .nextId, .ok (1 : Nat)⟩] := by
  rfl

/-! ### A request alone -/

/-- A program that has all the turns comes to its end. -/
theorem run_turns (s : Store) (before : List Underway) (served : List Served) (r : RegistryRequest)
    (p : Program Store.interface (Except EngineError r.Answer)) :
    ∃ n, run ⟨s, before ++ [⟨r, p⟩], served⟩ (List.replicate n (.turn before.length)) =
      ⟨(p.run (fun c s => s.exec c) s).2, before,
        served ++ [⟨r, (p.run (fun c s => s.exec c) s).1⟩]⟩ := by
  induction p generalizing s with
  | done result =>
    refine ⟨1, ?_⟩
    simp [run, step, advance, Program.run, List.eraseIdx_append_of_length_le]
  | call c next ih =>
    rcases ih (s.exec c).1 (s.exec c).2 with ⟨n, hn⟩
    refine ⟨n + 1, ?_⟩
    rw [List.replicate_succ, run, List.foldl_cons, ← run]
    have hturn : step ⟨s, before ++ [⟨r, .call c next⟩], served⟩ (.turn before.length) =
        ⟨(s.exec c).2, before ++ [⟨r, next (s.exec c).1⟩], served⟩ := by
      simp [step, advance]
    rw [hturn]
    exact hn

/-- A request that is served alone is a schedule: it arrives, and has all the turns. -/
theorem run_serve (t : Traffic) (r : RegistryRequest) :
    ∃ schedule, t.run schedule =
      { t with
        store := (on r.program t.store).2
        served := t.served ++ [⟨r, (on r.program t.store).1⟩] } := by
  rcases run_turns t.store t.underway t.served r r.program.run with ⟨n, hn⟩
  exact ⟨.arrive r :: List.replicate n (.turn t.underway.length), hn⟩

end Traffic

end StoragePolicy
