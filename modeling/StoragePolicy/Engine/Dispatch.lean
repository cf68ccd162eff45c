import StoragePolicy.Engine.Basic

/-!
# The engine: actions

Setting a filter stores an entry for it and then installs it; the entry stays if the installation
fails, so that its id is always held by the store. Deleting a filter removes it from the storage
side first and then deletes its entries.

## Main definitions

* `Engine.Outcome`: What an action has done.
* `Engine.dispatch`: Takes an action on a target.
-/

namespace StoragePolicy

namespace Engine

/-- What an action has done. -/
inductive Outcome where
  | installed (id : Nat)
  | uninstalled (removed : List Nat)
  deriving Repr, DecidableEq

/-- An outcome as JSON. -/
def Outcome.toJson : Outcome → Json
  | .installed id => .object [("outcome", .string "installed"), ("policy_id", .natural id)]
  | .uninstalled removed =>
    .object [("outcome", .string "uninstalled"), ("removed", .array (removed.map Json.natural))]

/-- The entry that an action stores under a new id. It runs after all entries with smaller ids. -/
def newEntry (id : Nat) (filterName : String) (action : FilterAction)
    (objectFilter : Option ObjectFilter) : StaticEntry :=
  { policyId := id
    filterName := filterName
    objectType := objectFilter.bind ObjectFilter.objectType
    objectSize := objectFilter.bind ObjectFilter.objectSize
    server := action.server
    executionOrder := id
    params := action.params.getD ""
    callable := action.callable }

/-- Takes an action on a target. An unknown filter is refused before anything is done. -/
def dispatch (target : Target) (action : FilterAction) (objectFilter : Option ObjectFilter) :
    Engine Outcome := do
  let filter ← ofRegistry (Registry.requireFilter action.filterName)
  match action.verb with
  | .set => do
    -- The storage side is told the id, so that the entry is stored before it is asked.
    let id ← ofRegistry Registry.nextId
    let entry := newEntry id filter.name action objectFilter
    ofRegistry (Registry.putStatic target.id id entry)
    install target filter entry
    return .installed id
  | .delete => do
    -- If the storage side refuses, the entries stay.
    uninstall target filter
    let removed ← ofRegistry (Registry.deleteMatching target.id filter.name)
    return .uninstalled removed

end Engine

end StoragePolicy
