import StoragePolicy.Proofs.Registry.Callers
import StoragePolicy.Proofs.Registry.Labels
import StoragePolicy.Proofs.Registry.Requests

/-!
# An update and a deletion of one entry

An update reads an entry and writes it back in a second call. A deletion looks for the entry, takes
it away, and sets the counter back. If the entry is taken away between the two calls of the update,
the update puts it back, and then it stands there again although the deletion has told that it
deleted it. Marking a record does not do that, since it is one call that does nothing to a record
which is gone.

That is the only order of the calls by which a deleted entry comes back, whatever other requests are
served meanwhile. This is seen by following the two programs: up to the call that takes the entry
away all that counts is how many calls the update has made, and after it whether the update still
has something to write.

## Main definitions

* `Race`: A store on which an update, a deletion and other programs work.
* `Race.Turn`, `Race.step`, `Race.run`: Whose call is made next, and a schedule of such turns.
* `Race.Overtaken`: The schedules in which the entry is taken away between the two calls of the
  update.
* `Race.Approaching`: What holds before the entry is taken away.

## Theorems

* `approaching_run`: Up to there the update has made as many calls as it had turns.
* `run_nothing_to_write`, `run_something_to_write`: From there on what the update has still to write
  decides.
* `getStatic_of_run`: What is found once both have come to their end.
* `not_forall_deleted`: A deleted entry may come back.
-/

namespace StoragePolicy

open Registry

/-- Makes the next call of a program, if it has one. -/
def Program.advance {α : Type} (s : Store) :
    Program Store.interface α → Program Store.interface α × Store
  | .done a => (.done a, s)
  | .call c next => (next (s.exec c).1, (s.exec c).2)

/-- A program of calls of one kind makes one such call, if any. -/
theorem Program.makes_advance {α : Type} (kind : Store.Call → Prop) (s : Store)
    (p : Program Store.interface α) (h : p.Makes kind) :
    (p.advance s).1.Makes kind ∧
      ((p.advance s).2 = s ∨ ∃ c, kind c ∧ (p.advance s).2 = (s.exec c).2) := by
  cases p with
  | done a => exact ⟨h, Or.inl rfl⟩
  | call c next => exact ⟨h.2 _, Or.inr ⟨c, h.1, rfl⟩⟩

/-! ### The calls of an update and of a deletion -/

namespace Registry

/-- What is left of an update that has an entry to write. -/
def writing (targetId : String) (id : Nat) (entry : StaticEntry) :
    Program Store.interface (Except EngineError StaticEntry) :=
  .call (.apply [.setField (pipelineKey targetId) (Number.writeNatural id) entry.toText])
    fun reply => .done ((Except.mapError EngineError.store reply).map fun _ => entry)

/-- What is left of an update after its first call. -/
def afterReading (targetId : String) (id : Nat) (patch : List (String × Json)) :
    Except StoreError (Option String) → Program Store.interface (Except EngineError StaticEntry)
  | .error e => .done (.error (.store e))
  | .ok none => .done (.error (.unknownEntry targetId id))
  | .ok (some text) =>
    match patchedEntry (pipelineKey targetId) text patch with
    | .error e => .done (.error e)
    | .ok entry => writing targetId id entry

/-- What is left of a deletion that has still to set the counter back. -/
def ending (existed : Bool) : Program Store.interface (Except EngineError Bool) :=
  .call (.resetIfVacant counterKey idStems)
    fun reply => .done ((Except.mapError EngineError.store reply).map fun _ => existed)

/-- What is left of a deletion that has found an entry. -/
def deleting (targetId : String) (id : Nat) : Program Store.interface (Except EngineError Bool) :=
  .call (.apply [.deleteField (pipelineKey targetId) (Number.writeNatural id)])
    fun
      | .error e => .done (.error (.store e))
      | .ok () => ending true

/-- What is left of a deletion after its first call. -/
def afterLooking (targetId : String) (id : Nat) :
    Except StoreError (Option String) → Program Store.interface (Except EngineError Bool)
  | .error e => .done (.error (.store e))
  | .ok none => ending false
  | .ok (some _) => deleting targetId id

theorem run_ending (existed : Bool) :
    (do discard resetIfVacant; pure existed : Registry Bool).run = ending existed := by
  refine congrArg (Program.call _) (funext fun reply => ?_)
  cases reply <;> rfl

theorem run_updateStatic (targetId : String) (id : Nat) (patch : List (String × Json)) :
    (updateStatic targetId id patch).run =
      .call (.getField (pipelineKey targetId) (Number.writeNatural id))
        (afterReading targetId id patch) := by
  -- What is left once the entry has been patched, or could not be.
  have hleft : ∀ outcome : Except EngineError StaticEntry, (do
      let entry ← ofExcept outcome
      change (.setField (pipelineKey targetId) (Number.writeNatural id) entry.toText)
      pure entry : Registry StaticEntry).run =
        match outcome with
        | .error e => .done (.error e)
        | .ok entry => writing targetId id entry := by
    intro outcome
    cases outcome with
    | error e => rfl
    | ok entry =>
      refine congrArg (Program.call _) (funext fun reply => ?_)
      cases reply <;> rfl
  refine congrArg (Program.call _) (funext fun reply => ?_)
  match reply with
  | .error e => rfl
  | .ok none => rfl
  | .ok (some text) => exact hleft (patchedEntry (pipelineKey targetId) text patch)

theorem run_deleteStatic (targetId : String) (id : Nat) :
    (deleteStatic targetId id).run =
      .call (.getField (pipelineKey targetId) (Number.writeNatural id))
        (afterLooking targetId id) := by
  refine congrArg (Program.call _) (funext fun reply => ?_)
  match reply with
  | .error e => rfl
  | .ok none => exact run_ending false
  | .ok (some text) =>
    refine congrArg (Program.call _) (funext fun reply => ?_)
    match reply with
    | .error e => rfl
    | .ok () => exact run_ending true

/-- A single entry is read as it is found. -/
theorem on_getStatic (targetId : String) (id : Nat) (d : Store) (stored : Option String)
    (h : d.peek (pipelineKey targetId) (Number.writeNatural id) = .ok stored) :
    on (getStatic targetId id) d = (stored.mapM (readEntry (pipelineKey targetId)), d) :=
  on_bind_ok _ _ d d stored
    (on_ask_ok (.getField (pipelineKey targetId) (Number.writeNatural id)) d stored h)

end Registry

/-! ### Races -/

/-- A store on which an update, a deletion and other programs work. -/
structure Race where
  store : Store
  update : Program Store.interface (Except EngineError StaticEntry)
  delete : Program Store.interface (Except EngineError Bool)
  others : List Process

namespace Race

/-- Whose call is made. -/
inductive Turn where
  | update
  | delete
  | other (i : Nat)
  deriving DecidableEq

/-- An update and a deletion of one entry and other requests, before the first call of any. -/
def start (s : Store) (targetId : String) (id : Nat) (patch : List (String × Json))
    (others : List Request) : Race :=
  { store := s, update := (updateStatic targetId id patch).run,
    delete := (deleteStatic targetId id).run
    others := others.map fun r => (discard r.program).run }

/-- Makes the next call of one of the programs, if it has one. -/
def step (race : Race) : Turn → Race
  | .update =>
    { race with update := (race.update.advance race.store).1,
                store := (race.update.advance race.store).2 }
  | .delete =>
    { race with delete := (race.delete.advance race.store).1,
                store := (race.delete.advance race.store).2 }
  | .other i =>
    match race.others[i]? with
    | none => race
    | some process =>
      { race with others := race.others.set i (process.advance race.store).1,
                  store := (process.advance race.store).2 }

/-- Makes calls in the order of a schedule. -/
def run (race : Race) (schedule : List Turn) : Race := schedule.foldl step race

/-- The second call of the deletion is made when the update has made its first and not its
    second. -/
def Overtaken (schedule : List Turn) : Prop :=
  ∃ k < schedule.length, schedule[k]? = some .delete ∧ (schedule.take k).count .delete = 1 ∧
    (schedule.take k).count .update = 1

instance (schedule : List Turn) : Decidable (Overtaken schedule) :=
  inferInstanceAs (Decidable (∃ k < schedule.length, schedule[k]? = some .delete ∧
    (schedule.take k).count .delete = 1 ∧ (schedule.take k).count .update = 1))

theorem overtaken_iff (schedule : List Turn) : Overtaken schedule ↔
    ∃ before after, schedule = before ++ .delete :: after ∧ before.count .delete = 1 ∧
      before.count .update = 1 := by
  constructor
  · rintro ⟨k, hk, hturn, hdelete, hupdate⟩
    refine ⟨schedule.take k, schedule.drop (k + 1), ?_, hdelete, hupdate⟩
    rw [List.getElem?_eq_getElem hk, Option.some.injEq] at hturn
    rw [← hturn, ← List.drop_eq_getElem_cons hk, List.take_append_drop]
  · rintro ⟨before, after, rfl, hdelete, hupdate⟩
    refine ⟨before.length, by simp, by simp, ?_, ?_⟩
    · rw [List.take_left]
      exact hdelete
    · rw [List.take_left]
      exact hupdate

theorem run_append (race : Race) (before after : List Turn) :
    race.run (before ++ after) = (race.run before).run after :=
  List.foldl_append

theorem run_cons (race : Race) (turn : Turn) (rest : List Turn) :
    race.run (turn :: rest) = (race.step turn).run rest := rfl

/-- A turn taken twice was taken once before that. -/
theorem exists_second (schedule : List Turn) (turn : Turn) (h : 2 ≤ schedule.count turn) :
    ∃ before after, schedule = before ++ turn :: after ∧ before.count turn = 1 := by
  induction schedule with
  | nil => exact absurd h (by simp)
  | cons first rest ih =>
    by_cases hfirst : first = turn
    · subst hfirst
      rw [List.count_cons_self] at h
      -- Here the first turn is the one before, and the second is the first of the rest.
      have hmem : first ∈ rest := List.count_pos_iff.mp (by omega)
      rcases List.eq_append_cons_of_mem hmem with ⟨before, after, hrest, hnot⟩
      refine ⟨first :: before, after, by rw [hrest, List.cons_append], ?_⟩
      rw [List.count_cons_self, List.count_eq_zero.mpr hnot]
    · rw [List.count_cons_of_ne hfirst] at h
      rcases ih h with ⟨before, after, hrest, hone⟩
      refine ⟨first :: before, after, by rw [hrest, List.cons_append], ?_⟩
      rw [List.count_cons_of_ne hfirst, hone]

section Race

variable (targetId : String) (id : Nat) (patch : List (String × Json)) (erasable : Prop)

/-- The other programs leave the entry alone, or take it away if they may. -/
def Apart (race : Race) : Prop :=
  ∀ process ∈ race.others, process.Makes
    (Store.Call.Leaves erasable (pipelineKey targetId) (Number.writeNatural id))

/-- What is found in the place of the entry. -/
def seen (race : Race) : Except StoreError (Option String) :=
  race.store.peek (pipelineKey targetId) (Number.writeNatural id)

/-- A turn of another program takes the entry away at most, and touches nothing else of the race. -/
theorem step_other (race : Race) (i : Nat) (h : race.Apart targetId id erasable) :
    (race.step (.other i)).Apart targetId id erasable ∧
      (race.step (.other i)).update = race.update ∧
      (race.step (.other i)).delete = race.delete ∧
      Store.Kept erasable (pipelineKey targetId) (Number.writeNatural id) race.store
        (race.step (.other i)).store := by
  cases hget : race.others[i]? with
  | none =>
    simp only [step, hget]
    exact ⟨h, trivial, trivial, Or.inl rfl⟩
  | some process =>
    simp only [step, hget]
    rcases Program.makes_advance _ race.store process (h process (List.mem_of_getElem? hget)) with
      ⟨hmakes, hstore⟩
    refine ⟨fun other hother => ?_, trivial, trivial, ?_⟩
    · rcases List.mem_or_eq_of_mem_set hother with hold | rfl
      · exact h other hold
      · exact hmakes
    · rcases hstore with hsame | ⟨c, hc, hexec⟩
      · rw [hsame]
        exact Or.inl rfl
      · rw [hexec]
        exact Store.peek_exec erasable _ _ race.store c hc

theorem apart_start (s : Store) (others : List Request)
    (h : ∀ r ∈ others, r.Elsewhere targetId id)
    (hmatching : erasable ∨ ∀ filterName, .deleteMatching targetId filterName ∉ others) :
    (start s targetId id patch others).Apart targetId id erasable := by
  intro process hprocess
  rcases List.mem_map.mp hprocess with ⟨r, hr, rfl⟩
  refine leaves_program erasable targetId id r (h r hr) ?_
  refine hmatching.imp (fun h => h) fun hnone filterName heq => ?_
  exact hnone filterName (heq ▸ hr)

/-! ### Before the entry is taken away -/

/-- How far an update has come that had `turns` turns. -/
inductive UpdateAt (turns : Nat) : Program Store.interface (Except EngineError StaticEntry) → Prop
  where
  | fresh (h : turns = 0) : UpdateAt turns (updateStatic targetId id patch).run
  | writing (h : turns = 1) (entry : StaticEntry) (hentry : entry.Storable) :
    UpdateAt turns (writing targetId id entry)
  | failed (h : 1 ≤ turns) (e : EngineError) : UpdateAt turns (.done (.error e))
  | finished (h : 2 ≤ turns) (result : Except EngineError StaticEntry) :
    UpdateAt turns (.done result)

/-- What is left of a deletion after the entry has been taken away, or has not been found. -/
def Ending (existed : Bool) (p : Program Store.interface (Except EngineError Bool)) : Prop :=
  p = ending existed ∨ ∃ result, p = .done result ∧ ∀ told, result = .ok told → told = existed

/-- How far a deletion has come that had `turns` turns and has not taken the entry away. -/
inductive DeleteAt (turns : Nat) (found : Except StoreError (Option String)) :
    Program Store.interface (Except EngineError Bool) → Prop
  where
  | fresh (h : turns = 0) : DeleteAt turns found (deleteStatic targetId id).run
  | deleting (h : turns = 1) (stored : Option String) (hfound : found = .ok stored) :
    DeleteAt turns found (deleting targetId id)
  | missed (h : 1 ≤ turns) (p : Program Store.interface (Except EngineError Bool))
    (hp : Ending false p) : DeleteAt turns found p

/-- What holds before the entry is taken away, when the two programs have had so many turns. -/
structure Approaching (updates deletes : Nat) (race : Race) : Prop where
  update : UpdateAt targetId id patch updates race.update
  delete : DeleteAt targetId id deletes (race.seen targetId id) race.delete
  apart : race.Apart targetId id erasable

/-- The counter is set back, and nothing happens to the entry. -/
theorem ending_advance (existed : Bool) (p : Program Store.interface (Except EngineError Bool))
    (h : Ending existed p) (s : Store) :
    Ending existed (p.advance s).1 ∧
      (p.advance s).2.get? (pipelineKey targetId) = s.get? (pipelineKey targetId) := by
  rcases h with rfl | ⟨result, rfl, hresult⟩
  · refine ⟨Or.inr ⟨_, rfl, fun told htold => ?_⟩, ?_⟩
    · rcases (Outcome.map_eq_ok _ _ _).mp htold with ⟨_, -, heq⟩
      exact heq.symm
    · refine Store.get?_exec s _ _ fun hmem => ?_
      exact pipelineKey_ne_counterKey targetId (List.mem_singleton.mp hmem)
  · exact ⟨Or.inr ⟨result, rfl, hresult⟩, rfl⟩

/-- What an update goes on with after reading is an entry to write, or it has failed. -/
theorem updateAt_afterReading (found : Except StoreError (Option String)) :
    UpdateAt targetId id patch 1 (afterReading targetId id patch found) := by
  match found with
  | .error e => exact .failed (Nat.le_refl 1) _
  | .ok none => exact .failed (Nat.le_refl 1) _
  | .ok (some text) =>
    rw [afterReading]
    cases hpatched : patchedEntry (pipelineKey targetId) text patch with
    | error e => exact .failed (Nat.le_refl 1) _
    | ok entry => exact .writing rfl entry (storable_patchedEntry _ text patch entry hpatched)

/-- A turn of the update. Writing needs that a hash is found there, if the deletion relies on it. -/
theorem updateAt_advance (updates : Nat)
    (p : Program Store.interface (Except EngineError StaticEntry))
    (h : UpdateAt targetId id patch updates p) (s : Store) :
    UpdateAt targetId id patch (updates + 1) (p.advance s).1 ∧
      ∀ stored, s.peek (pipelineKey targetId) (Number.writeNatural id) = .ok stored →
        ∃ stored, (p.advance s).2.peek (pipelineKey targetId) (Number.writeNatural id) =
          .ok stored := by
  cases h with
  | fresh h =>
    subst h
    rw [run_updateStatic]
    exact ⟨updateAt_afterReading targetId id patch _, fun stored hstored => ⟨stored, hstored⟩⟩
  | writing h entry hentry =>
    subst h
    refine ⟨.finished (Nat.le_refl 2) _, fun stored hstored => ?_⟩
    rcases Store.hashAt_of_peek s _ _ stored hstored with ⟨fields, hfields, -⟩
    have hput := Store.mutate_setField s _ (Number.writeNatural id) entry.toText fields hfields
    rw [writing, Program.advance, Store.exec, Store.applyBatch_single s _ _ hput]
    exact ⟨_, Store.peek_putHash s _ _ _⟩
  | failed h e => exact ⟨.failed (by omega) e, fun stored hstored => ⟨stored, hstored⟩⟩
  | finished h result =>
    exact ⟨.finished (by omega) result, fun stored hstored => ⟨stored, hstored⟩⟩

/-- A deletion that has taken nothing away goes on like that, whatever is found, as long as it finds
    a hash. -/
theorem deleteAt_found (deletes : Nat) (found later : Except StoreError (Option String))
    (p : Program Store.interface (Except EngineError Bool))
    (h : DeleteAt targetId id deletes found p)
    (hfound : ∀ stored, found = .ok stored → ∃ stored, later = .ok stored) :
    DeleteAt targetId id deletes later p := by
  cases h with
  | fresh h => exact .fresh h
  | deleting h stored hstored =>
    rcases hfound stored hstored with ⟨stored', hstored'⟩
    exact .deleting h stored' hstored'
  | missed h p hp => exact .missed h p hp

/-- The first call of a deletion changes nothing, and it goes on by what is found. -/
theorem deleteAt_advance (s : Store) (p : Program Store.interface (Except EngineError Bool))
    (h : DeleteAt targetId id 0 (s.peek (pipelineKey targetId) (Number.writeNatural id)) p) :
    DeleteAt targetId id 1 (s.peek (pipelineKey targetId) (Number.writeNatural id))
        (p.advance s).1 ∧
      (p.advance s).2 = s := by
  cases h with
  | fresh _ =>
    rw [run_deleteStatic]
    refine ⟨?_, rfl⟩
    change DeleteAt targetId id 1 _ (afterLooking targetId id
      (s.peek (pipelineKey targetId) (Number.writeNatural id)))
    cases hfound : s.peek (pipelineKey targetId) (Number.writeNatural id) with
    | error e => exact .missed (Nat.le_refl 1) _ (Or.inr ⟨_, rfl, fun _ h => nomatch h⟩)
    | ok stored =>
      cases stored with
      | none => exact .missed (Nat.le_refl 1) _ (Or.inl rfl)
      | some text => exact .deleting rfl (some text) rfl
  | deleting h => exact absurd h (by decide)
  | missed h => exact absurd h (by decide)

theorem approaching_start (s : Store) (others : List Request)
    (h : ∀ r ∈ others, r.Elsewhere targetId id)
    (hmatching : erasable ∨ ∀ filterName, .deleteMatching targetId filterName ∉ others) :
    Approaching targetId id patch erasable 0 0 (start s targetId id patch others) where
  update := .fresh rfl
  delete := .fresh rfl
  apart := apart_start targetId id patch erasable s others h hmatching

/-- Up to the second turn of the deletion each of the two programs is as far as it has had turns. -/
theorem approaching_run (race : Race) (updates deletes : Nat) (schedule : List Turn)
    (h : Approaching targetId id patch erasable updates deletes race)
    (hone : deletes + schedule.count .delete ≤ 1) :
    Approaching targetId id patch erasable (updates + schedule.count .update)
      (deletes + schedule.count .delete) (race.run schedule) := by
  induction schedule generalizing race updates deletes with
  | nil => exact h
  | cons turn rest ih =>
    rw [run_cons]
    cases turn with
    | update =>
      have hstep := updateAt_advance targetId id patch updates race.update h.update race.store
      rw [List.count_cons_of_ne (by decide)] at hone
      have hrest := ih (race.step .update) (updates + 1) deletes
        ⟨hstep.1, deleteAt_found targetId id deletes _ _ _ h.delete hstep.2, h.apart⟩ hone
      rw [List.count_cons_self, List.count_cons_of_ne (by decide)]
      rwa [Nat.add_right_comm, Nat.add_assoc] at hrest
    | delete =>
      rw [List.count_cons_self] at hone
      -- So this is the first turn of the deletion.
      have hzero : deletes = 0 := by omega
      subst hzero
      have hstep := deleteAt_advance targetId id race.store race.delete h.delete
      have hrest := ih (race.step .delete) updates 1 ⟨h.update, ?_, h.apart⟩ (by omega)
      · rw [List.count_cons_self, List.count_cons_of_ne (by decide), Nat.zero_add]
        rwa [Nat.add_comm 1] at hrest
      · change DeleteAt targetId id 1
          ((race.delete.advance race.store).2.peek _ _) (race.delete.advance race.store).1
        rw [hstep.2]
        exact hstep.1
    | other i =>
      rcases step_other targetId id erasable race i h.apart with ⟨hapart, hupdate, hdelete, hkept⟩
      rw [List.count_cons_of_ne (by simp)] at hone
      have hrest := ih (race.step (.other i)) updates deletes ⟨?_, ?_, hapart⟩ hone
      · rwa [List.count_cons_of_ne (by simp), List.count_cons_of_ne (by simp)]
      · rw [hupdate]
        exact h.update
      · rw [hdelete]
        refine deleteAt_found targetId id deletes _ _ _ h.delete fun stored hstored => ?_
        rcases hkept with hsame | ⟨-, -, hnone⟩
        · exact ⟨stored, hsame.trans hstored⟩
        · exact ⟨none, hnone⟩

/-! ### After the entry has been taken away -/

/-- A deletion that has come past the entry leaves what is found there alone from then on. -/
theorem step_delete_of_ending (race : Race) (existed : Bool) (h : Ending existed race.delete) :
    Ending existed (race.step .delete).delete ∧
      (race.step .delete).seen targetId id = race.seen targetId id := by
  rcases ending_advance targetId existed race.delete h race.store with ⟨hending, hget⟩
  exact ⟨hending, Store.peek_congr _ _ _ _ hget⟩

include targetId id in
/-- A deletion that has come past the entry never tells anything else than it has seen. -/
theorem run_ending_of_ending (race : Race) (existed : Bool) (schedule : List Turn)
    (h : Ending existed race.delete) : Ending existed (race.run schedule).delete := by
  induction schedule generalizing race with
  | nil => exact h
  | cons turn rest ih =>
    refine ih (race.step turn) ?_
    cases turn with
    | update => exact h
    | delete => exact (step_delete_of_ending targetId id race existed h).1
    | other i =>
      cases hget : race.others[i]? <;> simp only [step, hget] <;> exact h

/-- An update that has come to its end stays there. -/
theorem run_update_of_done (race : Race) (result : Except EngineError StaticEntry)
    (schedule : List Turn) (h : race.update = .done result) :
    (race.run schedule).update = .done result := by
  induction schedule generalizing race with
  | nil => exact h
  | cons turn rest ih =>
    refine ih (race.step turn) ?_
    cases turn with
    | update =>
      simp only [step, h]
      rfl
    | delete => exact h
    | other i =>
      cases hget : race.others[i]? <;> simp only [step, hget] <;> exact h

/-- Nothing is found there, and the update has nothing to write. -/
structure NothingToWrite (race : Race) : Prop where
  seen : race.seen targetId id = .ok none
  update : race.update = (updateStatic targetId id patch).run ∨ ∃ result, race.update = .done result
  delete : Ending true race.delete
  apart : race.Apart targetId id erasable

/-- Nothing is found where the update has nothing to write when the entry is taken away. -/
theorem run_nothing_to_write (race : Race) (schedule : List Turn)
    (h : NothingToWrite targetId id patch erasable race) :
    (race.run schedule).seen targetId id = .ok none := by
  induction schedule generalizing race with
  | nil => exact h.seen
  | cons turn rest ih =>
    refine ih (race.step turn) ?_
    cases turn with
    | update =>
      refine ⟨?_, Or.inr ?_, h.delete, h.apart⟩
      · rcases h.update with hfresh | ⟨result, hdone⟩
        · change ((race.update.advance race.store).2.peek _ _) = _
          rw [hfresh, run_updateStatic]
          exact h.seen
        · change ((race.update.advance race.store).2.peek _ _) = _
          rw [hdone]
          exact h.seen
      · change ∃ result, (race.update.advance race.store).1 = .done result
        rcases h.update with hfresh | ⟨result, hdone⟩
        · -- An update that begins now finds no entry.
          rw [hfresh, run_updateStatic]
          change ∃ result, afterReading targetId id patch (race.seen targetId id) = .done result
          rw [h.seen]
          exact ⟨_, rfl⟩
        · rw [hdone]
          exact ⟨result, rfl⟩
    | delete =>
      rcases step_delete_of_ending targetId id race true h.delete with ⟨hending, hseen⟩
      exact ⟨hseen.trans h.seen, h.update, hending, h.apart⟩
    | other i =>
      rcases step_other targetId id erasable race i h.apart with ⟨hapart, hupdate, hdelete, hkept⟩
      refine ⟨?_, by rw [hupdate]; exact h.update, by rw [hdelete]; exact h.delete, hapart⟩
      rcases hkept with hsame | ⟨-, -, hnone⟩
      · exact hsame.trans h.seen
      · exact hnone

/-- The update has an entry to write, or has written it where nobody takes it away again. -/
structure SomethingToWrite (entry : StaticEntry) (race : Race) : Prop where
  update : race.seen targetId id = .ok none ∧ race.update = writing targetId id entry ∨
    race.seen targetId id = .ok (some entry.toText) ∧ race.update = .done (.ok entry)
  delete : Ending true race.delete
  apart : race.Apart targetId id False

/-- The entry comes back where the update has it to write when it is taken away. -/
theorem run_something_to_write (entry : StaticEntry) (race : Race) (schedule : List Turn)
    (h : SomethingToWrite targetId id entry race) (result : Except EngineError StaticEntry)
    (hdone : (race.run schedule).update = .done result) :
    (race.run schedule).seen targetId id = .ok (some entry.toText) ∧ result = .ok entry := by
  induction schedule generalizing race with
  | nil =>
    have hdone : race.update = .done result := hdone
    rcases h.update with ⟨-, hwriting⟩ | ⟨hseen, hwritten⟩
    · rw [hwriting] at hdone
      exact nomatch hdone
    · rw [hwritten] at hdone
      cases hdone
      exact ⟨hseen, rfl⟩
  | cons turn rest ih =>
    -- The invariant is that the update still has the entry to write, or has written it where it
    -- is seen.
    refine ih (race.step turn) ?_ hdone
    cases turn with
    | update =>
      refine ⟨Or.inr ?_, h.delete, h.apart⟩
      change (race.update.advance race.store).2.peek _ _ = _ ∧
        (race.update.advance race.store).1 = .done (.ok entry)
      rcases h.update with ⟨hseen, hwriting⟩ | ⟨hseen, hwritten⟩
      · rcases Store.hashAt_of_peek race.store _ _ none hseen with ⟨fields, hfields, -⟩
        have hput := Store.mutate_setField race.store _ (Number.writeNatural id) entry.toText fields
          hfields
        rw [hwriting, writing, Program.advance, Store.exec,
          Store.applyBatch_single race.store _ _ hput]
        refine ⟨?_, rfl⟩
        rw [Store.peek_putHash, Dict.get?_insert, if_pos rfl]
      · rw [hwritten]
        exact ⟨hseen, rfl⟩
    | delete =>
      rcases step_delete_of_ending targetId id race true h.delete with ⟨hending, hseen⟩
      exact ⟨h.update.imp (fun h => ⟨hseen.trans h.1, h.2⟩) fun h => ⟨hseen.trans h.1, h.2⟩,
        hending, h.apart⟩
    | other i =>
      rcases step_other targetId id False race i h.apart with ⟨hapart, hupdate, hdelete, hkept⟩
      have hseen : (race.step (.other i)).seen targetId id = race.seen targetId id :=
        hkept.resolve_right fun h => h.1
      refine ⟨?_, by rw [hdelete]; exact h.delete, hapart⟩
      rw [hseen, hupdate]
      exact h.update

/-! ### Taking the entry away -/

/-- The second turn of a deletion that will tell that there was an entry takes the entry away. -/
theorem step_delete_of_approaching (race : Race) (updates : Nat) (after : List Turn)
    (h : Approaching targetId id patch erasable updates 1 race)
    (hdelete : ((race.step .delete).run after).delete = .done (.ok true)) :
    Ending true (race.step .delete).delete ∧ (race.step .delete).seen targetId id = .ok none := by
  generalize hp : race.delete = p at h
  have hat := h.delete
  rw [hp] at hat
  cases hat with
  | fresh h => exact absurd h (by decide)
  | missed _ _ hending =>
    -- It would tell that there was none.
    have hstep := (step_delete_of_ending targetId id race false (hp ▸ hending)).1
    have hlast := run_ending_of_ending targetId id (race.step .delete) false after hstep
    rw [hdelete] at hlast
    rcases hlast with hlast | ⟨result, hresult, htold⟩
    · exact nomatch hlast
    · cases hresult
      exact absurd (htold true rfl) (by decide)
  | deleting _ stored hstored =>
    rcases Store.hashAt_of_peek race.store _ _ stored hstored with ⟨fields, hfields, -⟩
    have herase := Store.mutate_deleteField race.store _ (Number.writeNatural id) fields hfields
    have hadvance : race.delete.advance race.store = (ending true,
        race.store.putHash (pipelineKey targetId) (fields.erase (Number.writeNatural id))) := by
      rw [hp, deleting, Program.advance, Store.exec, Store.applyBatch_single race.store _ _ herase]
    change Ending true (race.delete.advance race.store).1 ∧
      (race.delete.advance race.store).2.peek _ _ = _
    rw [hadvance]
    refine ⟨Or.inl rfl, ?_⟩
    rw [Store.peek_putHash, Dict.get?_erase, if_pos rfl]

end Race

/-- Once an update and a deletion of one entry have come to their end, whatever their order was and
    whatever other requests were served meanwhile, and if the deletion has told that there was an
    entry: the entry is gone, unless it was taken away between the two calls of the update. Then
    what the update has answered stands there, unless a request took its filter out. -/
theorem getStatic_of_run (s : Store) (targetId : String) (id : Nat) (patch : List (String × Json))
    (others : List Request) (hothers : ∀ r ∈ others, r.Elsewhere targetId id)
    (schedule : List Turn) (result : Except EngineError StaticEntry)
    (hdelete : ((start s targetId id patch others).run schedule).delete = .done (.ok true))
    (hupdate : ((start s targetId id patch others).run schedule).update = .done result) :
    (¬ Overtaken schedule → (on (getStatic targetId id)
      ((start s targetId id patch others).run schedule).store).1 = .ok none) ∧
    (Overtaken schedule → (∀ filterName, .deleteMatching targetId filterName ∉ others) →
      (on (getStatic targetId id) ((start s targetId id patch others).run schedule).store).1 =
        .ok result.toOption) := by
  have hget := on_getStatic targetId id ((start s targetId id patch others).run schedule).store
  constructor
  · intro hnot
    have hstart := approaching_start targetId id patch True s others hothers (Or.inl trivial)
    -- The deletion has had two turns at least, since it has come to its end.
    have htwo : 2 ≤ schedule.count .delete := by
      by_contra hfew
      have hlast := (approaching_run targetId id patch True _ 0 0 schedule hstart (by omega)).delete
      rw [hdelete] at hlast
      cases hlast with
      | missed _ _ hending =>
        rcases hending with hending | ⟨told, htold, hfalse⟩
        · exact nomatch hending
        · cases htold
          exact absurd (hfalse true rfl) (by decide)
    rcases exists_second schedule .delete htwo with ⟨before, after, rfl, hone⟩
    have hbefore := approaching_run targetId id patch True _ 0 0 before hstart (by omega)
    rw [hone, Nat.zero_add, Nat.zero_add] at hbefore
    rw [run_append, run_cons] at hdelete hupdate hget ⊢
    generalize (start s targetId id patch others).run before = race at *
    rcases step_delete_of_approaching targetId id patch True race _ after hbefore hdelete with
      ⟨hending, hseen⟩
    refine congrArg Prod.fst (hget none ?_)
    refine run_nothing_to_write targetId id patch True (race.step .delete) after
      ⟨hseen, ?_, hending, hbefore.apart⟩
    have hat := hbefore.update
    change race.update = _ ∨ ∃ result, race.update = .done result
    generalize race.update = p at hat
    cases hat with
    | fresh _ => exact Or.inl rfl
    | writing h => exact absurd ((overtaken_iff _).mpr ⟨before, after, rfl, hone, h⟩) hnot
    | failed _ e => exact Or.inr ⟨_, rfl⟩
    | finished _ result => exact Or.inr ⟨_, rfl⟩
  · intro hovertaken hmatching
    rcases (overtaken_iff schedule).mp hovertaken with ⟨before, after, rfl, hone, hupdates⟩
    have hstart := approaching_start targetId id patch False s others hothers (Or.inr hmatching)
    have hbefore := approaching_run targetId id patch False _ 0 0 before hstart (by omega)
    rw [hone, hupdates] at hbefore
    rw [run_append, run_cons] at hdelete hupdate hget ⊢
    generalize (start s targetId id patch others).run before = race at *
    rcases step_delete_of_approaching targetId id patch False race _ after hbefore hdelete with
      ⟨hending, hseen⟩
    have hat := hbefore.update
    generalize hp : race.update = p at hat
    cases hat with
    | fresh h => exact absurd h (by decide)
    | finished h => exact absurd h (by decide)
    | failed _ e =>
      -- An update that has failed writes nothing, and so it stays with its error.
      have hdone : (race.step .delete).update = .done (.error e) := hp
      have hnone := run_nothing_to_write targetId id patch False (race.step .delete) after
        ⟨hseen, Or.inr ⟨_, hdone⟩, hending, hbefore.apart⟩
      rw [run_update_of_done _ _ after hdone] at hupdate
      cases hupdate
      exact congrArg Prod.fst (hget none hnone)
    | writing _ entry hentry =>
      rcases run_something_to_write targetId id entry (race.step .delete) after
        ⟨Or.inl ⟨hseen, hp⟩, hending, hbefore.apart⟩ result hupdate with ⟨hlast, rfl⟩
      rw [hget _ hlast]
      change ((some <$> readEntry (pipelineKey targetId) entry.toText :
        Except EngineError (Option StaticEntry))) = _
      rw [readEntry, StaticEntry.ofText?_toText entry hentry]
      rfl

/-! ### A deleted entry that comes back -/

/-- An entry, and what a patch makes of it. -/
def compressEntry : StaticEntry := { policyId := 1, filterName := "compress", executionOrder := 1 }

def levelPatch : List (String × Json) := [("params", .string "level=9")]

def levelEntry : StaticEntry := { compressEntry with params := "level=9" }

/-- A registry that holds the entry and nothing else. -/
def oneEntry : Store :=
  Store.putHash (Dict.empty.insert counterKey (.scalar "1")) (pipelineKey "t1")
    (Dict.empty.insert "1" compressEntry.toText)

theorem storable_compressEntry : compressEntry.Storable :=
  ⟨by decide, by decide, by simp [compressEntry]⟩

/-- An update that finds the entry goes on to write it. -/
theorem afterReading_compressEntry :
    afterReading "t1" 1 levelPatch (.ok (some compressEntry.toText)) =
      writing "t1" 1 levelEntry := by
  have hpatched : patchedEntry (pipelineKey "t1") compressEntry.toText levelPatch =
      .ok levelEntry :=
    (patchedEntry_toText _ _ storable_compressEntry _ _).mpr (by decide +kernel)
  simp only [afterReading, hpatched]

/-- The first turn of the update. -/
theorem step_update_start (s : Store) (targetId : String) (id : Nat) (patch : List (String × Json))
    (others : List Request) :
    (start s targetId id patch others).step .update =
      { start s targetId id patch others with
        update := afterReading targetId id patch
          (s.peek (pipelineKey targetId) (Number.writeNatural id)) } := by
  simp only [step, start, run_updateStatic]
  rfl

theorem step_update_oneEntry (others : List Request) :
    (start oneEntry "t1" 1 levelPatch others).step .update =
      { start oneEntry "t1" 1 levelPatch others with update := writing "t1" 1 levelEntry } := by
  have hfound : oneEntry.peek (pipelineKey "t1") (Number.writeNatural 1) =
      .ok (some compressEntry.toText) := by
    rw [oneEntry, Store.peek_putHash, Dict.get?_insert, if_pos (by decide)]
  rw [step_update_start, hfound, afterReading_compressEntry]

/-- The update writes between the look of the deletion and the call that takes the entry away, and
    meanwhile an id is taken. -/
theorem getStatic_of_run_in_time :
    ((start oneEntry "t1" 1 levelPatch [.nextId]).run
        [.update, .delete, .other 0, .update, .delete, .delete]).delete = .done (.ok true) ∧
      ¬ Overtaken [.update, .delete, .other 0, .update, .delete, .delete] ∧
      (on (getStatic "t1" 1) ((start oneEntry "t1" 1 levelPatch [.nextId]).run
        [.update, .delete, .other 0, .update, .delete, .delete]).store).1 = .ok none := by
  have hothers : ∀ r ∈ [Request.nextId], r.Elsewhere "t1" 1 := by simp [Request.Elsewhere]
  have hrun : (start oneEntry "t1" 1 levelPatch [.nextId]).run
      [.update, .delete, .other 0, .update, .delete, .delete] =
        Race.run { start oneEntry "t1" 1 levelPatch [.nextId] with
          update := writing "t1" 1 levelEntry } [.delete, .other 0, .update, .delete, .delete] := by
    rw [run_cons, step_update_oneEntry]
  have hdelete : ((start oneEntry "t1" 1 levelPatch [.nextId]).run
      [.update, .delete, .other 0, .update, .delete, .delete]).delete = .done (.ok true) := by
    rw [hrun]
    rfl
  have hupdate : ((start oneEntry "t1" 1 levelPatch [.nextId]).run
      [.update, .delete, .other 0, .update, .delete, .delete]).update = .done (.ok levelEntry) := by
    rw [hrun]
    rfl
  have hnot : ¬ Overtaken [.update, .delete, .other 0, .update, .delete, .delete] := by decide
  exact ⟨hdelete, hnot, (getStatic_of_run oneEntry "t1" 1 levelPatch [.nextId] hothers _ _ hdelete
    hupdate).1 hnot⟩

/-- The deletion comes between the two calls of the update, and finds the registry empty. -/
def between : List Turn := [.update, .delete, .delete, .delete, .update]

/-- A deleted entry may come back: if it is taken away between the two calls of the update, the
    update puts it there again. The counter has been set back meanwhile, so that the next id is the
    one that the entry stands under. -/
theorem not_forall_deleted :
    (¬ ∀ (s : Store) (targetId : String) (id : Nat) (patch : List (String × Json))
      (others : List Request), (∀ r ∈ others, r.Elsewhere targetId id) →
      ∀ (schedule : List Turn) (result : Except EngineError StaticEntry),
      ((start s targetId id patch others).run schedule).delete = .done (.ok true) →
      ((start s targetId id patch others).run schedule).update = .done result →
      (on (getStatic targetId id) ((start s targetId id patch others).run schedule).store).1 =
        .ok none) ∧
      ((start oneEntry "t1" 1 levelPatch []).run between).store.fieldNames (pipelineKey "t1") =
        [Number.writeNatural 1] ∧
      (((start oneEntry "t1" 1 levelPatch []).run between).store.exec nextIdCall).1 =
        .ok (1 : Nat) := by
  have hrun : (start oneEntry "t1" 1 levelPatch []).run between =
      Race.run { start oneEntry "t1" 1 levelPatch [] with update := writing "t1" 1 levelEntry }
        [.delete, .delete, .delete, .update] := by
    rw [between, run_cons, step_update_oneEntry]
  have hdelete : ((start oneEntry "t1" 1 levelPatch []).run between).delete = .done (.ok true) := by
    rw [hrun]
    rfl
  have hupdate : ((start oneEntry "t1" 1 levelPatch []).run between).update =
      .done (.ok levelEntry) := by
    rw [hrun]
    rfl
  have hseen : ((start oneEntry "t1" 1 levelPatch []).run between).store.peek (pipelineKey "t1")
      (Number.writeNatural 1) = .ok (some levelEntry.toText) := by
    rw [hrun]
    rfl
  refine ⟨fun hall => ?_, ?_, ?_⟩
  · have hgone := hall oneEntry "t1" 1 levelPatch [] (by simp) between _ hdelete hupdate
    rw [on_getStatic "t1" 1 _ _ hseen] at hgone
    -- What is found is some text, so that the answer is an entry or an error, but not nothing.
    have hread : (some <$> readEntry (pipelineKey "t1") levelEntry.toText :
        Except EngineError (Option StaticEntry)) = .ok none := hgone
    cases hentry : readEntry (pipelineKey "t1") levelEntry.toText with
    | error e =>
      rw [hentry] at hread
      exact nomatch hread
    | ok entry =>
      rw [hentry] at hread
      cases hread
  · rw [hrun]
    decide +kernel
  · rw [hrun]
    rfl

end Race

end StoragePolicy
