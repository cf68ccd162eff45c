import StoragePolicy.Registry.Basic
import StoragePolicy.Policy.Static

/-!
# The registry of policies: pipelines

The pipeline of a target is a hash whose fields are policy ids and whose values are entries as JSON
text. It is listed in ascending execution order; entries of equal order keep the order of their
fields, in which `10` comes before `2`.

## Main definitions

* `Registry.putStatic`, `Registry.getStatic`, `Registry.deleteStatic`: Single entries.
* `Registry.updateStatic`: Puts a patch over a stored entry.
* `Registry.deleteMatching`: Removes a filter from a pipeline.
* `Registry.listStatic`: The entries of one target or of all.
-/

namespace StoragePolicy

namespace Registry

/-- The error for a text that is no entry. -/
def corruptEntry (key : String) : EngineError := .store (.corrupt key "not a static policy")

/-- Stores an entry and ends the reservation of its id in one step. -/
def putStatic (targetId : String) (id : Nat) (entry : StaticEntry) : Registry Unit :=
  ask (.apply [.setField (pipelineKey targetId) (Number.writeNatural id) entry.toText, release id])

/-- The entry stored in a text under a key. -/
def readEntry (key text : String) : Except EngineError StaticEntry :=
  match StaticEntry.ofText? text with
  | some entry => .ok entry
  | none => .error (corruptEntry key)

/-- The entry of an id, if there is one. -/
def getStatic (targetId : String) (id : Nat) : Registry (Option StaticEntry) := do
  let key := pipelineKey targetId
  let stored : Option String ← ask (.getField key (Number.writeNatural id))
  ofExcept (stored.mapM (readEntry key))

/-- An entry as stored, with a patch put over it. -/
def patchedEntry (key text : String) (patch : List (String × Json)) :
    Except EngineError StaticEntry :=
  match Decoder.text? Json.decodeMembers text.toList with
  | .error _ => .error (corruptEntry key)
  | .ok members =>
    match StaticEntry.ofMembers? (Json.mergeMembers members patch) with
    | some entry => .ok entry
    | none => .error .notAnEntry

/-- Puts a patch over the entry of an id. The entry is read and written in two steps. -/
def updateStatic (targetId : String) (id : Nat) (patch : List (String × Json)) :
    Registry StaticEntry := do
  let key := pipelineKey targetId
  let stored : Option String ← ask (.getField key (Number.writeNatural id))
  match stored with
  | none => throw (.unknownEntry targetId id)
  | some text => do
    let entry ← ofExcept (patchedEntry key text patch)
    change (.setField key (Number.writeNatural id) entry.toText)
    return entry

/-- Deletes the entry of an id. Tells whether there was one. -/
def deleteStatic (targetId : String) (id : Nat) : Registry Bool := do
  let key := pipelineKey targetId
  let stored : Option String ← ask (.getField key (Number.writeNatural id))
  if stored.isSome then change (.deleteField key (Number.writeNatural id))
  discard resetIfVacant
  return stored.isSome

/-- Entries in ascending execution order. -/
def inOrder {α : Type} (order : α → Nat) (items : List α) : List α :=
  items.mergeSort fun a b => order a ≤ order b

/-- The entries of a pipeline, in execution order. -/
def entriesOf (targetId : String) : Registry (List StaticEntry) := do
  let key := pipelineKey targetId
  let fields : Dict String String ← ask (.getFields key)
  let entries ← ofExcept (fields.values.mapM (readEntry key))
  return inOrder StaticEntry.executionOrder entries

/-- Deletes the fields of some ids from a hash, one by one. -/
def deleteFields (key : String) : List Nat → Registry Unit
  | [] => pure ()
  | id :: rest => do
    change (.deleteField key (Number.writeNatural id))
    deleteFields key rest

/-- Deletes every entry of a filter from a pipeline. Gives the ids of the entries, in execution
    order. -/
def deleteMatching (targetId filterName : String) : Registry (List Nat) := do
  let entries ← entriesOf targetId
  let removed := (entries.filter fun e => e.filterName = filterName).map StaticEntry.policyId
  deleteFields (pipelineKey targetId) removed
  discard resetIfVacant
  return removed

/-- The entries of some pipelines, each with its target. -/
def entriesOfAll : List String → Registry (List (String × StaticEntry))
  | [] => pure []
  | targetId :: rest => do
    let entries ← entriesOf targetId
    let others ← entriesOfAll rest
    return entries.map (fun e => (targetId, e)) ++ others

/-- The text behind a stem. -/
def dropStem (stem key : String) : String := String.ofList (key.toList.drop stem.length)

/-- The entries of one target or of all, each with its target, in execution order. -/
def listStatic (targetId : Option String) : Registry (List (String × StaticEntry)) := do
  let targets : List String ←
    match targetId with
    | some targetId => pure [targetId]
    | none => do
      let keys : List String ← ask (.keys pipelineStem)
      pure (keys.map (dropStem pipelineStem))
  let listed ← entriesOfAll targets
  return inOrder (fun e => e.2.executionOrder) listed

end Registry

end StoragePolicy
