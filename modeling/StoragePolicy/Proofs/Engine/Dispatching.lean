import StoragePolicy.Proofs.Engine.Rejection

/-!
# What an action comes to

An action is taken in three steps: the filter is looked up, the storage side is asked, and the
pipeline of the target is changed, before that or after it. If the filter is known and the storage
side agrees, none of this can fail on a sound session that has ids left. The storage side is asked
once.

## Main definitions

* `InstallerCall.Takes`: The calls to the storage side that take the action of a monitor.

## Theorems

* `run_dispatch_missing`: What an action does whose filter is not found.
* `run_dispatch_set`, `run_dispatch_refused`, `run_dispatch_delete`: What an action does to set a
  filter, and to delete one.
* `run_dispatch`: An action succeeds, and asks the storage side once.
-/

namespace StoragePolicy

open Registry

/-- A call to the storage side takes the action of a monitor: it is about the target and the filter
    of the action, and it installs the entry that belongs to the action, or uninstalls the
    filter. -/
def InstallerCall.Takes (binding : MonitorBinding) (filter : FilterSpec) : InstallerCall → Prop
  | .install target known entry =>
    binding.action.verb = .set ∧ target = binding.target ∧ known = filter ∧
      ∃ id, entry = Engine.newEntry id filter.name binding.action binding.objectFilter
  | .uninstall target known =>
    binding.action.verb = .delete ∧ target = binding.target ∧ known = filter

/-- A filter is found under its own name. -/
theorem Registry.name_of_getFilter (d : Store) (name : String) (filter : FilterSpec)
    (h : (on (getFilter name) d).1 = .ok (some filter)) : filter.name = name := by
  rcases on_bind_eq_ok _ _ _ _ h with ⟨fields, -, hrest⟩
  split at hrest
  · exact nomatch hrest
  · cases hrest
    rfl

/-- What is known of a filter depends on the catalog only. -/
theorem Registry.on_getFilter_congr (d d' : Store) (h : d.SameCatalog d') (name : String) :
    (on (getFilter name) d').1 = (on (getFilter name) d).1 := by
  refine Session.on_looks_congr _ ?_ d d' h
  refine makes_bind _ _ _ (makes_ask _ _ (Session.not_own_filterKey name)) fun fields => ?_
  split
  · exact makes_pure _ _
  · exact makes_pure _ _

namespace Session

/-- An action whose filter is not found ends there. -/
theorem run_dispatch_missing (s : Session) (hopen : s.Open) (target : Target)
    (action : FilterAction) (objectFilter : Option ObjectFilter) (e : EngineError)
    (h : (on (requireFilter action.filterName) s.store).1 = .error e) :
    s.run (Engine.dispatch target action objectFilter).run = (.error e, s) := by
  have hlook := on_looks _ (makes_requireFilter _ action.filterName (not_own_filterKey _)) s.store
  have hrun := run_ofRegistry s (requireFilter action.filterName) hopen
  rw [hlook, withStore_store, h] at hrun
  rw [Engine.dispatch, run_bindCont, hrun]
  rfl

section Dispatch

variable (s : Session) (target : Target) (action : FilterAction)
  (objectFilter : Option ObjectFilter) (filter : FilterSpec)
  (hfilter : (on (getFilter action.filterName) s.store).1 = .ok (some filter)) (hopen : s.Open)

include hfilter hopen

/-- A filter that is known is found, and looking for it changes nothing. -/
theorem run_requireFilter :
    s.run (Engine.ofRegistry (requireFilter action.filterName)).run = (.ok filter, s) := by
  have hlook := on_looks _ (makes_requireFilter _ action.filterName (not_own_filterKey _)) s.store
  rw [run_ofRegistry s _ hopen, on_requireFilter _ _ _ hfilter, hlook, withStore_store]

/-- If the filter is to be set, that is all there is to do. -/
theorem run_dispatch_set (hverb : action.verb = .set) :
    s.run (Engine.dispatch target action objectFilter).run =
      s.run (setFilter target filter
        fun id => Engine.newEntry id filter.name action objectFilter).run := by
  rw [Engine.dispatch, run_bind_ok s s _ _ _ (run_requireFilter s action filter hfilter hopen),
    hverb]
  rfl

/-- If the storage side refuses to delete the filter, nothing else is done. -/
theorem run_dispatch_refused (hverb : action.verb = .delete) (e : InstallerError)
    (hrefused : (s.storage.receive (.uninstall target filter)).1 = .error e) :
    s.run (Engine.dispatch target action objectFilter).run =
      (.error (.ofInstaller e),
        s.withStorage (s.storage.receive (.uninstall target filter)).2) := by
  rw [Engine.dispatch, run_bind_ok s s _ _ _ (run_requireFilter s action filter hfilter hopen),
    hverb]
  dsimp only
  rw [run_bindCont, run_uninstall, hrefused]
  rfl

/-- If the storage side agrees, the filter is taken out of the pipeline. -/
theorem run_dispatch_delete (hverb : action.verb = .delete)
    (haccepted : (s.storage.receive (.uninstall target filter)).1 = .ok ()) :
    s.run (Engine.dispatch target action objectFilter).run =
      ((on (deleteMatching target.id action.filterName) s.store).1.map .uninstalled,
        (s.withStore (on (deleteMatching target.id action.filterName) s.store).2).withStorage
          (s.storage.receive (.uninstall target filter)).2) := by
  have hsecond : s.run (Engine.uninstall target filter).run =
      (.ok (), s.withStorage (s.storage.receive (.uninstall target filter)).2) := by
    rw [run_uninstall, haccepted]
    rfl
  rw [Engine.dispatch, run_bind_ok s s _ _ _ (run_requireFilter s action filter hfilter hopen),
    hverb]
  dsimp only
  rw [run_bind_ok s _ _ _ _ hsecond, run_bindCont,
    run_ofRegistry (s.withStorage (s.storage.receive (.uninstall target filter)).2) _ hopen,
    name_of_getFilter _ _ _ hfilter, store_withStorage]
  generalize on (deleteMatching target.id action.filterName) s.store = outcome
  rcases outcome with ⟨result, d⟩
  cases result <;> rfl

end Dispatch

/-- An action whose filter is known and to which the storage side agrees succeeds. It asks the
    storage side once, and changes nothing but the store besides. -/
theorem run_dispatch (s : Session) (hs : s.Counted) (hroom : s.effort < Number.maxWord)
    (binding : MonitorBinding) (filter : FilterSpec)
    (hfilter : (on (getFilter binding.action.filterName) s.store).1 = .ok (some filter))
    (haccepts : ∀ call, (s.storage.receive call).1 = .ok ()) :
    ∃ outcome d call, call.Takes binding filter ∧
      s.run (Engine.dispatch binding.target binding.action binding.objectFilter).run =
        (.ok outcome, (s.withStore d).withStorage (s.storage.receive call).2) := by
  rcases hs.bound with ⟨n, hn, hledger⟩
  -- To set an entry takes an id before the storage side is asked. To delete entries takes none.
  cases hverb : binding.action.verb with
  | set =>
    rcases run_setFilter s hs.unrefused n hledger (by omega) binding.target filter
      (fun id => Engine.newEntry id filter.name binding.action binding.objectFilter)
      (fun _ => rfl) with ⟨-, hrun⟩
    rw [haccepts] at hrun
    refine ⟨.installed (n + 1), withEntry s.store binding.target.id (n + 1) (Engine.newEntry (n + 1)
      filter.name binding.action binding.objectFilter), .install binding.target filter
        (Engine.newEntry (n + 1) filter.name binding.action binding.objectFilter),
      ⟨hverb, rfl, rfl, n + 1, rfl⟩, ?_⟩
    rw [run_dispatch_set s _ _ _ filter hfilter hs.unrefused hverb]
    exact hrun
  | delete =>
    rcases hledger.pipelines binding.target.id with ⟨fields, hfields⟩
    rcases on_deleteMatching s.store n hledger hs.legible binding.target.id
      binding.action.filterName fields hfields with ⟨entries, removed, -, -, hdone, -⟩
    have hrun := run_dispatch_delete s binding.target binding.action binding.objectFilter filter
      hfilter hs.unrefused hverb (haccepts _)
    rw [hdone] at hrun
    exact ⟨.uninstalled removed, _, .uninstall binding.target filter, ⟨hverb, rfl, rfl⟩, hrun⟩

end Session

end StoragePolicy
