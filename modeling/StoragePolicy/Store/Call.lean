import StoragePolicy.Store.Basic
import StoragePolicy.Program

/-!
# Calls to the store

Each call is atomic. A store may be out of order for some calls, which it refuses before they do
anything.

## Main definitions

* `Store.Call`, `Store.Call.Answer`: The calls and the types of their answers.
* `Store.exec`: What a call does.
* `Store.interface`: The store as the surroundings of a program.
* `Backend`: A store that may be out of order.
* `Backend.exec`: What a call to such a store does.
-/

namespace StoragePolicy

namespace Store

/-- A call to the store. -/
inductive Call where
  | get (key : String)
  /-- Adds one to a counter. -/
  | increment (key : String)
  /-- Adds one to a counter and enters the new number as a field of the hash `reservations`. -/
  | incrementReserving (counter reservations : String)
  /-- Sets a counter that exists back to zero, unless some key begins with one of `stems`. -/
  | resetIfVacant (counter : String) (stems : List String)
  /-- Sets a field of a hash that already has it. -/
  | updateField (key field value : String)
  | getField (key field : String)
  | getFields (key : String)
  | getItems (key : String)
  | contains (key : String)
  /-- The keys that begin with `stem`. -/
  | keys (stem : String)
  /-- Makes all of the changes, or none of them. -/
  | apply (changes : List Mutation)
  deriving Repr, DecidableEq

/-- The type of the answer to a call. -/
def Call.Answer : Call → Type
  | .get _ => Option String
  | .increment _ => Nat
  | .incrementReserving _ _ => Nat
  | .resetIfVacant _ _ => Bool
  | .updateField _ _ _ => Bool
  | .getField _ _ => Option String
  | .getFields _ => Dict String String
  | .getItems _ => List String
  | .contains _ => Bool
  | .keys _ => List String
  | .apply _ => Unit

/-- Sets a counter back to zero. Nothing is done while a key begins with one of `stems`, nor if
    there is no counter. -/
def resetIfVacant (s : Store) (counter : String) (stems : List String) :
    Except StoreError Bool × Store :=
  if s.keys.any fun key => stems.any fun stem => stem.toList.isPrefixOf key.toList then
    (.ok false, s)
  else
    match s.get? counter with
    | none => (.ok false, s)
    | some (.scalar _) => (.ok true, s.insert counter (.scalar "0"))
    | some _ => (.error (.wrongType counter), s)

/-- Adds one to a counter and reserves the new number. The counter is left as it is if the
    reservations are not kept in a hash. -/
def incrementReserving (s : Store) (counter reservations : String) :
    Except StoreError Nat × Store :=
  match s.hashAt reservations with
  | .error e => (.error e, s)
  | .ok _ =>
    match s.increment counter with
    | .error e => (.error e, s)
    | .ok (n, s) =>
      match s.mutate (.setField reservations (Number.writeNatural n) "") with
      | .error e => (.error e, s)
      | .ok s => (.ok n, s)

/-- Sets a field of a hash that already has it. -/
def updateField (s : Store) (key field value : String) : Except StoreError Bool × Store :=
  match s.hashAt key with
  | .error e => (.error e, s)
  | .ok fields =>
    if fields.contains field then (.ok true, s.putHash key (fields.insert field value))
    else (.ok false, s)

/-- What a call answers, and what it does to the store. -/
def exec (s : Store) : (c : Call) → Except StoreError c.Answer × Store
  | .get key => (s.scalarAt key, s)
  | .increment key =>
    match s.increment key with
    | .ok (n, s') => (.ok n, s')
    | .error e => (.error e, s)
  | .incrementReserving counter reservations => s.incrementReserving counter reservations
  | .resetIfVacant counter stems => s.resetIfVacant counter stems
  | .updateField key field value => s.updateField key field value
  | .getField key field => ((s.hashAt key).map fun fields => fields.get? field, s)
  | .getFields key => (s.hashAt key, s)
  | .getItems key => (s.listAt key, s)
  | .contains key => (.ok (Dict.contains s key), s)
  | .keys stem => (.ok (s.scanKeys stem), s)
  | .apply changes => s.applyBatch changes

/-- The store as the surroundings of a program: a reply is an answer or an error. -/
abbrev interface : Interface := ⟨Call, fun c => Except StoreError c.Answer⟩

/-- The keys a call is about, in order. -/
def Call.about : Call → List String
  | .get key | .increment key | .incrementReserving key _ | .resetIfVacant key _
  | .updateField key _ _ | .getField key _ | .getFields key | .getItems key | .contains key
  | .keys key => [key]
  | .apply changes => changes.map Mutation.key

end Store

/-- A store with the calls that it refuses at present, whatever it holds. -/
structure Backend where
  data : Store := Dict.empty
  refusal : Store.Call → Option StoreError := fun _ => none

namespace Backend

/-- What a call answers, and what it does to the store. A refused call does nothing. -/
def exec (c : Store.Call) (b : Backend) : Except StoreError c.Answer × Backend :=
  match b.refusal c with
  | some error => (.error error, b)
  | none =>
    let (answer, data) := b.data.exec c
    (answer, { b with data := data })

/-- A store that refuses nothing does what the call says. -/
theorem exec_of_refusal_eq_none (c : Store.Call) (b : Backend) (h : b.refusal c = none) :
    b.exec c = ((b.data.exec c).1, { b with data := (b.data.exec c).2 }) := by
  rw [exec, h]

end Backend

end StoragePolicy
