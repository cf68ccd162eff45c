import StoragePolicy.Registry.Static
import StoragePolicy.Policy.Record

/-!
# The registry of policies: records

The record of a dynamic policy is a hash of text fields under a key of its own. Some hash there may
be no record; it is told apart from the others when all are listed.

## Main definitions

* `Registry.putDynamic`, `Registry.getDynamic`, `Registry.deleteDynamic`: Single records.
* `Registry.setAlive`: Marks a record, if it still exists.
* `Registry.scanDynamic`: All records.
-/

namespace StoragePolicy

namespace Registry

/-- The changes that store a record and end the reservation of its id. -/
def recordChanges (record : PolicyRecord) : List Mutation :=
  record.toFields.map (fun f => .setField (PolicyRecord.storeKey record.id) f.1 f.2) ++
    [release record.id]

/-- Stores a record and ends the reservation of its id in one step. -/
def putDynamic (record : PolicyRecord) : Registry Unit := ask (.apply (recordChanges record))

/-- The record of an id, if there is one. -/
def getDynamic (id : Nat) : Registry (Option PolicyRecord) := do
  let fields : Dict String String ← ask (.getFields (PolicyRecord.storeKey id))
  if fields.isEmpty then return none
  else
    let record ← ofExcept ((PolicyRecord.ofFields fields).mapError .undecodableRecord)
    return some record

/-- Marks a record as alive or not. Tells whether there was one: a record that has been deleted is
    not made anew. -/
def setAlive (id : Nat) (alive : Bool) : Registry Bool :=
  ask (.updateField (PolicyRecord.storeKey id) "alive" (PolicyRecord.flagText alive))

/-- Deletes the record of an id. Tells whether there was one. -/
def deleteDynamic (id : Nat) : Registry Bool := do
  let key := PolicyRecord.storeKey id
  let existed : Bool ← ask (.contains key)
  if existed then change (.delete key)
  discard resetIfVacant
  return existed

/-- All records that were found, and the keys of the hashes that are none. -/
structure Scan where
  records : List PolicyRecord := []
  undecodable : List (String × RecordError) := []

/-- Reads the records under some keys. -/
def scanKeys : List String → Registry Scan
  | [] => pure {}
  | key :: rest => do
    let fields : Dict String String ← ask (.getFields key)
    let scan ← scanKeys rest
    match PolicyRecord.ofFields fields with
    | .ok record => return { scan with records := record :: scan.records }
    | .error e => return { scan with undecodable := (key, e) :: scan.undecodable }

/-- All records, in ascending order of their ids. -/
def scanDynamic : Registry Scan := do
  let keys : List String ← ask (.keys PolicyRecord.keyStem)
  let scan ← scanKeys keys
  return { scan with records := inOrder PolicyRecord.id scan.records }

/-- All records in order; hashes that are none are left out. -/
def listDynamic : Registry (List PolicyRecord) := do
  let scan ← scanDynamic
  return scan.records

end Registry

end StoragePolicy
