import StoragePolicy.Proofs.Engine.Uninstalled
import StoragePolicy.Proofs.Registry.Vacancy

/-!
# Reservations end

An id that is taken is reserved until something is stored under it or it is given back. A program of
the engine that takes an id makes use of it in its next call to the store, and what it stores there
is not refused, since everything goes under keys that hold hashes. So no id is reserved when a
program has come to its end, whatever the storage side has answered in the meantime.

That every id is made use of can be told from the calls of a program and from what was replied to
them. No session has to be run for it, and it does not matter how many ids have been taken before.

## Main definitions

* `Store.Hashed`: Reservations, pipelines and records are kept in hashes.
* `Store.Reserves`: Only one id is reserved, or none.
* `Engine.Spends`: Programs that make use of every id they take.

## Theorems

* `reserves_quiet`, `reserves_nextId`, `reserves_use`: What the calls do to the reservations.
* `reserves_run`: No id is reserved when a program that makes use of all its ids has ended.
* `spends_deploy`, `spends_turn`: The programs of the engine do so.
* `reserves_performAll`: No id is reserved between the operations of a session.
-/

namespace StoragePolicy

open Registry

namespace Store

/-- Reservations, pipelines and records are kept in hashes. -/
def Hashed (d : Store) : Prop := ∀ key, Own key → key ≠ counterKey → d.HashAt key

/-- The hash of reservations if one id is reserved, or none. -/
def reservation : Option Nat → Dict String String
  | none => Dict.empty
  | some id => Dict.empty.insert (Number.writeNatural id) ""

/-- Only one id is reserved, or none. -/
structure Reserves (d : Store) (held : Option Nat) : Prop where
  hashed : d.Hashed
  reservations : d.hashAt reservationKey = .ok (reservation held)

theorem reservation_erase (id : Nat) :
    (reservation (some id)).erase (Number.writeNatural id) = reservation none := by
  refine Dict.ext_get? _ _ fun name => ?_
  simp only [reservation, Dict.get?_erase, Dict.get?_insert, Dict.get?_empty]
  split <;> rfl

/-! ### What the calls do -/

theorem hashed_putHash (d : Store) (h : d.Hashed) (key : String) (fields : Dict String String) :
    (d.putHash key fields).Hashed := fun other hown hne =>
  hashAt_putHash_any d key other fields (h other hown hne)

theorem hashed_congr (d d' : Store) (h : d.Hashed)
    (hsame : ∀ key, key ≠ counterKey → d'.get? key = d.get? key) : d'.Hashed := fun key hown hne =>
  hashAt_congr_any d d' key (hsame key hne).symm (h key hown hne)

theorem hashed_exec_sparing (d : Store) (h : d.Hashed) (c : Call) (hc : c.Sparing) :
    (d.exec c).2.Hashed := by
  cases c with
  | increment key => exact absurd hc id
  | incrementReserving counter reservations => exact absurd hc id
  | resetIfVacant counter stems =>
    rcases hc with ⟨rfl, -⟩
    refine hashed_congr d _ h fun key hne => get?_exec d _ key ?_
    -- Only the counter is changed, and of the counter nothing is said.
    exact fun hmem => hne (List.mem_singleton.mp hmem)
  | updateField key name value =>
    simp only [exec, updateField]
    split
    · exact h
    · split
      · exact hashed_putHash d h key _
      · exact h
  | apply changes =>
    rcases sparing_apply changes hc with ⟨targetId, name, rfl⟩ | ⟨id, rfl⟩
    · rcases h _ (own_pipelineKey targetId) (pipelineKey_ne_counterKey targetId) with
        ⟨fields, hfields⟩
      rw [exec, applyBatch_single d _ _ (mutate_deleteField d _ name fields hfields)]
      exact hashed_putHash d h _ _
    · rw [exec, applyBatch_single d (d.erase (PolicyRecord.storeKey id)) _ rfl]
      exact hashed_putHash d h _ Dict.empty
  | _ => exact h

section Reserves

variable (d : Store) (held : Option Nat)

theorem reserves_quiet (h : d.Reserves held) (c : Call) (hc : c.Sparing) :
    (d.exec c).2.Reserves held := by
  refine ⟨hashed_exec_sparing d h.hashed c hc, ?_⟩
  rw [← h.reservations]
  refine (hashAt_congr _ _ _ (get?_exec d c reservationKey fun hmem => ?_))
  rcases key_of_sparing c hc reservationKey hmem with hkey | ⟨targetId, hkey⟩ | ⟨name, hkey⟩
  · exact counterKey_ne_reservationKey hkey.symm
  · exact pipelineKey_ne_reservationKey targetId hkey.symm
  · exact recordKey_ne_reservationKey name hkey.symm

/-- If an id is taken it is the only one that is reserved, and if not nothing changes. -/
theorem reserves_nextId (h : d.Reserves none) :
    (∃ id, (d.exec nextIdCall).1 = .ok id ∧ (d.exec nextIdCall).2.Reserves (some id)) ∨
      ∃ e, (d.exec nextIdCall).1 = .error e ∧ (d.exec nextIdCall).2.Reserves none := by
  simp only [exec, incrementReserving, h.reservations]
  cases hcounted : d.increment counterKey with
  | error e => exact Or.inr ⟨e, rfl, h⟩
  | ok counted =>
    rcases counted with ⟨id, d'⟩
    have hsame : ∀ key, key ≠ counterKey → d'.get? key = d.get? key := fun key hne =>
      get?_increment d d' counterKey key id hcounted hne
    have hreservations : d'.hashAt reservationKey = .ok (reservation none) :=
      (hashAt_congr _ _ _ (hsame _ counterKey_ne_reservationKey.symm)).trans h.reservations
    dsimp only
    rw [mutate_setField d' reservationKey (Number.writeNatural id) "" _ hreservations]
    refine Or.inl ⟨id, rfl, ?_, ?_⟩
    · exact hashed_putHash d' (hashed_congr d d' h.hashed hsame) _ _
    · exact (hashAt_putHash _ _ _ _).trans (if_pos rfl)

/-- What is stored under a reserved id is not refused, and ends the reservation. -/
theorem reserves_use (id : Nat) (h : d.Reserves (some id)) (use : Use) (c : Call)
    (hc : use.call id = some c) :
    (∃ answer, (d.exec c).1 = .ok answer) ∧ (d.exec c).2.Reserves none := by
  -- Each use ends with the write that takes the id out of the reservations.
  have hreleased : ∀ d' : Store, d'.Hashed → (d'.putHash reservationKey
      ((reservation (some id)).erase (Number.writeNatural id))).Reserves none := by
    intro d' hhashed
    refine ⟨hashed_putHash d' hhashed _ _, ?_⟩
    rw [reservation_erase]
    exact (hashAt_putHash _ _ _ _).trans (if_pos rfl)
  cases use with
  | putStatic targetId entry =>
    cases hc
    rcases h.hashed _ (own_pipelineKey targetId) (pipelineKey_ne_counterKey targetId) with
      ⟨fields, hfields⟩
    rw [exec_putStatic d targetId id _ fields _ hfields h.reservations]
    exact ⟨⟨(), rfl⟩, hreleased _ (hashed_putHash d h.hashed _ _)⟩
  | putDynamic record =>
    cases hc
    rcases h.hashed _ (own_storeKey id) (recordKey_ne_counterKey _) with ⟨fields, hfields⟩
    rw [exec_putDynamic d { record with id } fields _ hfields h.reservations]
    exact ⟨⟨(), rfl⟩, hreleased _ (hashed_putHash d h.hashed _ _)⟩
  | release =>
    cases hc
    rw [exec_release d id _ h.reservations]
    exact ⟨⟨(), rfl⟩, hreleased d h.hashed⟩
  | keep => cases hc

end Reserves

end Store

/-! ### Programs that make use of their ids -/

namespace Engine

/-- Programs that make use of every id they take before they take another one or end. What follows
    a call by which an id was to be made use of and that was refused is left open. -/
inductive Spends {α : Type} : Option Nat → Program interface α → Prop where
  | done (a : α) : Spends none (.done a)
  | quiet (held : Option Nat) (c : Call) (next : c.Reply → Program interface α) (hc : c.Quiet)
    (h : ∀ reply, Spends held (next reply)) : Spends held (.call c next)
  | take (next : (Call.store nextIdCall).Reply → Program interface α)
    (hok : ∀ id : Nat, Spends (some id) (next (Except.ok id)))
    (herror : ∀ e : StoreError, Spends none (next (Except.error e))) :
    Spends none (.call (.store nextIdCall) next)
  | spend (id : Nat) (use : Use) (c : Store.Call)
    (next : (Call.store c).Reply → Program interface α) (hc : use.call id = some c)
    (h : ∀ answer : c.Answer, Spends none (next (Except.ok answer))) :
    Spends (some id) (.call (.store c) next)

section Parts

variable {α β : Type}

theorem spends_of_quiet (p : Program interface α) (hp : p.Makes Call.Quiet) : Spends none p := by
  induction p with
  | done a => exact .done a
  | call c next ih => exact .quiet none c next hp.1 fun reply => ih reply (hp.2 reply)

theorem spends_bind (held : Option Nat) (p : Program interface α) (f : α → Program interface β)
    (hp : Spends held p) (hf : ∀ a, Spends none (f a)) : Spends held (p >>= f) := by
  induction hp with
  | done a => exact hf a
  | quiet held c next hc h ih => exact .quiet held c _ hc ih
  | take next hok herror ihok iherror => exact .take _ ihok iherror
  | spend id use c next hc h ih => exact .spend id use c _ hc ih

theorem spends_then (held : Option Nat) (p : Engine α) (f : α → Engine β) (hp : Spends held p.run)
    (hf : ∀ a, Spends none (f a).run) : Spends held (p >>= f).run := by
  refine spends_bind held p.run _ hp fun result => ?_
  cases result with
  | ok a => exact hf a
  | error e => exact .done _

theorem compositional_spends : Compositional fun _ p => Spends none p :=
  ⟨.done, spends_bind none⟩

/-- A program that takes an id first. -/
theorem spends_nextId (f : Nat → Engine α) (hf : ∀ id, Spends (some id) (f id).run) :
    Spends none (ofRegistry nextId >>= f).run :=
  .take _ (fun id => hf id) fun _ => .done _

/-- A program that makes use of an id first. -/
theorem spends_ask (id : Nat) (use : Use) (c : Store.Call) (hc : use.call id = some c)
    (f : c.Answer → Engine α) (hf : ∀ answer, Spends none (f answer).run) :
    Spends (some id) (ofRegistry (Registry.ask c) >>= f).run :=
  .spend id use c _ hc fun answer => hf answer

theorem spends_storeRecord (r : PolicyRecord) (f : Unit → Engine α)
    (hf : ∀ answer, Spends none (f answer).run) :
    Spends (some r.id) (storeRecord r >>= f).run :=
  .spend r.id (.putDynamic r) _ _ rfl fun answer => hf answer

end Parts

section Spends

variable (settings : Settings)

theorem spends_dispatch (target : Target) (action : FilterAction)
    (objectFilter : Option ObjectFilter) :
    Spends none (dispatch target action objectFilter).run := by
  refine spends_then none _ _ (spends_of_quiet _ (quiet_idle _ (idle_requireFilter _)))
    fun filter => ?_
  cases action.verb with
  | set =>
    refine spends_nextId _ fun id => ?_
    refine spends_ask id (.putStatic target.id (newEntry id filter.name action objectFilter)) _ rfl
      _ fun _ => ?_
    exact .quiet none _ _ trivial fun reply => by cases reply <;> exact .done _
  | delete =>
    refine .quiet none _ _ trivial fun reply => ?_
    cases reply with
    | error e => exact .done _
    | ok _ =>
      refine spends_then none _ _ (spends_of_quiet _ (quiet_idle _ (idle_deleteMatching _ _)))
        fun _ => .done _

theorem spends_deployPairs (text conditionText : String) (rule : Rule)
    (pairs : List (Target × FilterAction × Nat)) (done : Deployment) :
    Spends none (deployPairs settings text conditionText rule pairs done).run := by
  induction pairs generalizing done with
  | nil => exact .done _
  | cons pair rest ih =>
    rcases pair with ⟨target, action, index⟩
    refine spends_nextId _ fun id => ?_
    refine spends_storeRecord (newRecord settings id text conditionText rule target action index) _
      fun _ => ?_
    refine spends_then none _ _ (spends_of_quiet _ (makes_attempt _ _ (quiet_spawn _ _)))
      fun outcome => ?_
    cases outcome with
    | ok handle => exact ih _
    | error e => exact ih _

variable (directory : Directory)

theorem spends_deployLine (line : String) :
    Spends none (deployLine directory settings line) :=
  compositional_spends.holds_deployLine directory settings line
    (fun rule => spends_of_quiet _ (quiet_idle _ (idle_check directory rule)))
    (fun rule conditionText _ _ _ => spends_deployPairs settings line conditionText rule _ _)
    fun _ _ _ _ => spends_dispatch _ _ _

theorem spends_deploy (text : String) : Spends none (deploy directory settings text) :=
  compositional_spends.holds_deploy directory settings (spends_deployLine settings directory) text

theorem spends_turn (handle : MonitorHandle) (binding : MonitorBinding) (m : Monitor)
    (sample : Sample) : Spends none (turn settings handle binding m sample) := by
  have hmodest : ∀ p : Program interface Unit, p.Makes Call.Modest → Spends none p :=
    fun p hp => spends_of_quiet p (quiet_program_of_modest p hp)
  exact compositional_spends.holds_turn settings handle binding
    (spends_of_quiet _ (makes_ask _ _ trivial)) (spends_dispatch _ _ _)
    (hmodest _ (modest_retire settings _)) (hmodest _ (modest_afterPersistentFire settings _)) m
    sample

end Spends

end Engine

/-! ### Sessions -/

namespace Session

/-- A session whose store refuses nothing and reserves one id at most. -/
structure Reserves (s : Session) (held : Option Nat) : Prop where
  unrefused : s.Open
  store : s.store.Reserves held

/-- Calls that do not concern the store leave it alone. -/
theorem backend_exec_of_ne_store (c : Engine.Call) (s : Session)
    (h : ∀ call, c ≠ .store call) : (exec c s).2.backend = s.backend := by
  cases c with
  | store call => exact absurd rfl (h call)
  | _ => rfl

/-- No id is reserved when a program that makes use of all its ids has ended. -/
theorem reserves_run {α : Type} (held : Option Nat) (p : Program Engine.interface α)
    (hp : Engine.Spends held p) (s : Session) (h : s.Reserves held) :
    (s.run p).2.Reserves none := by
  have hcall : ∀ (s : Session) (c : Engine.Call) (next : c.Reply → Program Engine.interface α),
      s.run (.call c next) = (exec c s).2.run (next (exec c s).1) := fun _ _ _ => rfl
  -- The induction is on how the program spends its ids: a call leaves what is reserved alone,
  -- takes an id, or makes use of one.
  induction hp generalizing s with
  | done a => exact h
  | quiet held c next hc _ ih =>
    rw [hcall]
    refine ih _ _ ?_
    cases c with
    | store c =>
      rw [exec_store s c h.unrefused]
      exact ⟨h.unrefused, Store.reserves_quiet _ _ h.store c hc⟩
    | _ => exact ⟨h.unrefused, h.store⟩
  | take next _ _ ihok iherror =>
    rw [hcall, exec_store s _ h.unrefused]
    rcases Store.reserves_nextId s.store h.store with ⟨id, hanswer, hafter⟩ | ⟨e, hanswer, hafter⟩
    · rw [hanswer]
      exact ihok id _ ⟨h.unrefused, hafter⟩
    · rw [hanswer]
      exact iherror e _ ⟨h.unrefused, hafter⟩
  | spend id use c next hc _ ih =>
    rw [hcall, exec_store s c h.unrefused]
    rcases Store.reserves_use s.store id h.store use c hc with ⟨⟨answer, hanswer⟩, hafter⟩
    rw [hanswer]
    exact ih answer _ ⟨h.unrefused, hafter⟩

section Operations

variable (directory : Directory) (settings : Engine.Settings)

/-- An update puts an entry where one was. -/
theorem reserves_updateEntry (s : Session) (h : s.Reserves none) (targetId : String) (id : Nat)
    (patch : List (String × Json)) :
    (s.run (Engine.ofRegistry (Engine.updateEntry directory targetId id patch)).run).2.Reserves
      none := by
  have hput : ∀ fields, (s.store.putHash (pipelineKey targetId) fields).Reserves none := by
    intro fields
    refine ⟨Store.hashed_putHash _ h.store.hashed _ _, ?_⟩
    rw [Store.hashAt_putHash, if_neg (pipelineKey_ne_reservationKey targetId).symm]
    exact h.store.reservations
  rcases h.store.hashed _ (Store.own_pipelineKey targetId) (pipelineKey_ne_counterKey targetId) with
    ⟨fields, hfields⟩
  have hupdate : (on (updateStatic targetId id patch) s.store).2.Reserves none := by
    rw [on_updateStatic targetId id patch s.store fields hfields]
    cases fields.get? (Number.writeNatural id) with
    | none => exact h.store
    | some text =>
      dsimp only
      cases patchedEntry (pipelineKey targetId) text patch with
      | error e => exact h.store
      | ok entry => exact hput _
  rw [run_ofRegistry s _ h.unrefused, store_on_updateEntry]
  exact ⟨h.unrefused, hupdate⟩

theorem reserves_program (s : Session) (h : s.Reserves none) (operation : Operation) :
    (s.run (operation.program directory settings)).2.Reserves none := by
  cases operation with
  | deploy text =>
    rw [Operation.program, run_discard_program]
    exact reserves_run none _ (Engine.spends_deploy settings directory text) s h
  | updateStatic targetId id patch =>
    rw [Operation.program, run_discard_program]
    exact reserves_updateEntry directory s h targetId id patch
  | _ =>
    exact reserves_run none _ (Engine.spends_of_quiet _
      (quiet_program directory settings _ (by simp) (by simp))) s h

theorem reserves_settle (s : Session) (h : s.Reserves none) :
    (s.settle settings).Reserves none :=
  kept_settle settings (fun t => t.Reserves none) (fun handle binding m sample t ht =>
    reserves_run none _ (Engine.spends_turn settings handle binding m sample) t ht)
    (fun _ _ ht => ⟨ht.unrefused, ht.store⟩) s h

theorem reserves_perform (s : Session) (h : s.Reserves none) (operation : Operation) :
    (s.perform directory settings operation).Reserves none :=
  reserves_settle settings _ (reserves_program directory settings s h operation)

/-- A session that begins has no reservations. -/
theorem reserves_of_fresh (s : Session) (h : s.Fresh) : s.Reserves none := by
  refine ⟨h.unrefused, fun key hown _ => ⟨Dict.empty, ?_⟩, ?_⟩
  · rw [Store.hashAt, h.vacant key hown]
  · rw [Store.hashAt, h.vacant _ Store.own_reservationKey]
    rfl

/-- No id is reserved between the operations of a session. -/
theorem reserves_performAll (s : Session) (hfresh : s.Fresh) (operations : List Operation) :
    (s.performAll directory settings operations).Reserves none := by
  have hbegin := reserves_of_fresh s hfresh
  clear hfresh
  induction operations generalizing s with
  | nil => exact hbegin
  | cons operation rest ih =>
    exact ih _ (reserves_perform directory settings s hbegin operation)

end Operations

end Session

end StoragePolicy
