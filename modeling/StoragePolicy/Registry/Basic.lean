import StoragePolicy.Store.Call
import StoragePolicy.Error

/-!
# The registry of policies: keys and ids

The registry keeps policies, filters, object types and objectives in the store. All policy ids come
from one counter. A new id is reserved in a hash until the entry or the record that carries it is
stored, and the counter goes back to zero only when nothing that carries an id is left: no
pipeline, no record and no reservation.

## Main definitions

* `Registry`: A program over the store that may be refused.
* `Registry.ask`: A single call to the store.
* `Registry.nextId`, `Registry.releaseId`: Taking an id and giving it back.
* `Registry.resetIfVacant`: Starting again from zero.
-/

namespace StoragePolicy

/-- A program over the store that ends in a value or in an error. -/
abbrev Registry (α : Type) := ExceptT EngineError (Program Store.interface) α

namespace Registry

/-- Makes a call to the store. An error of the store is an error of the engine. -/
def ask (c : Store.Call) : Registry c.Answer :=
  ExceptT.mk (.call c fun reply => .done (Except.mapError EngineError.store reply))

/-- Makes a single change to the store. -/
def change (m : Mutation) : Registry Unit := ask (.apply [m])

/-- Ends in a value or an error that is already known. -/
def ofExcept {α : Type} (result : Except EngineError α) : Registry α := ExceptT.mk (.done result)

/-- The key of the counter from which the ids are taken. -/
def counterKey : String := "policies:id"

/-- The key of the hash whose fields are the ids taken but not yet stored. -/
def reservationKey : String := "policies:reserved"

/-- What the key of every pipeline begins with. -/
def pipelineStem : String := "pipeline:"

/-- The key of the pipeline of a target. -/
def pipelineKey (targetId : String) : String := pipelineStem ++ targetId

/-- What the keys begin with under which ids are in use. -/
def idStems : List String := [PolicyRecord.keyStem, pipelineStem, reservationKey]

/-- Takes the next id and reserves it. -/
def nextId : Registry Nat := ask (.incrementReserving counterKey reservationKey)

/-- The change that ends the reservation of an id. -/
def release (id : Nat) : Mutation := .deleteField reservationKey (Number.writeNatural id)

/-- Sets the counter back to zero if no id is in use. Tells whether it did. -/
def resetIfVacant : Registry Bool := ask (.resetIfVacant counterKey idStems)

/-- Gives back an id that will not be stored. -/
def releaseId (id : Nat) : Registry Unit := do
  change (release id)
  discard resetIfVacant

end Registry

end StoragePolicy
