import StoragePolicy.Dict
import StoragePolicy.Number.Natural

/-!
# The store

The store maps keys to values of three kinds: texts, hashes of text fields, and lists of texts. A
hash or a list that becomes empty disappears, so a key that exists holds data.

## Main definitions

* `StoreValue`, `Store`: The content of a store.
* `StoreError`: Why a store refuses.
* `Mutation`: A single change.
* `Store.mutate`: What a change does.
* `Store.applyBatch`: Several changes, all or none of them.
* `Store.scanKeys`: The keys that begin with a given text.
-/

namespace StoragePolicy

/-- A value of the store. -/
inductive StoreValue where
  | scalar (text : String)
  | hash (fields : Dict String String)
  | list (items : List String)

/-- The content of a store. -/
abbrev Store := Dict String StoreValue

/-- Why a store refuses. -/
inductive StoreError where
  /-- The store itself failed. -/
  | backend (reason : String)
  /-- The key holds a value of another kind. -/
  | wrongType (key : String)
  /-- The text under the key is not a number. -/
  | notACounter (key : String)
  /-- What is stored under the key is not what belongs there. -/
  | corrupt (key : String) (reason : String)
  deriving Repr, DecidableEq

/-- The wording of an error. -/
def StoreError.message : StoreError → String
  | .backend reason => "backend error: " ++ reason
  | .wrongType key => "key `" ++ key ++ "` holds a different kind of value"
  | .notACounter key => "value at `" ++ key ++ "` is not a counter"
  | .corrupt key reason => "corrupt value at `" ++ key ++ "`: " ++ reason

/-- A single change to a store. -/
inductive Mutation where
  | set (key value : String)
  | delete (key : String)
  | setField (key field value : String)
  | deleteField (key field : String)
  | append (key : String) (values : List String)
  /-- Removes the first item equal to `value`. -/
  | removeItem (key value : String)
  deriving Repr, DecidableEq

/-- The key a change is about. -/
def Mutation.key : Mutation → String
  | .set key _ | .delete key | .setField key _ _ | .deleteField key _ | .append key _
  | .removeItem key _ => key

namespace Store

/-- Puts a hash under a key; an empty one disappears. -/
def putHash (s : Store) (key : String) (fields : Dict String String) : Store :=
  if fields.isEmpty then s.erase key else s.insert key (.hash fields)

/-- Puts a list under a key; an empty one disappears. -/
def putList (s : Store) (key : String) (items : List String) : Store :=
  if items.isEmpty then s.erase key else s.insert key (.list items)

/-- The hash under a key, empty if there is nothing. -/
def hashAt (s : Store) (key : String) : Except StoreError (Dict String String) :=
  match s.get? key with
  | none => .ok Dict.empty
  | some (.hash fields) => .ok fields
  | some _ => .error (.wrongType key)

/-- The list under a key, empty if there is nothing. -/
def listAt (s : Store) (key : String) : Except StoreError (List String) :=
  match s.get? key with
  | none => .ok []
  | some (.list items) => .ok items
  | some _ => .error (.wrongType key)

/-- The text under a key, if there is anything. -/
def scalarAt (s : Store) (key : String) : Except StoreError (Option String) :=
  match s.get? key with
  | none => .ok none
  | some (.scalar text) => .ok (some text)
  | some _ => .error (.wrongType key)

/-- What a change does. Appending nothing changes nothing, whatever is stored. -/
def mutate (s : Store) : Mutation → Except StoreError Store
  | .set key value => .ok (s.insert key (.scalar value))
  | .delete key => .ok (s.erase key)
  | .setField key field value => do
    let fields ← s.hashAt key
    return s.putHash key (fields.insert field value)
  | .deleteField key field => do
    let fields ← s.hashAt key
    return s.putHash key (fields.erase field)
  | .append key values => do
    if values.isEmpty then return s
    else
      let items ← s.listAt key
      return s.putList key (items ++ values)
  | .removeItem key value => do
    let items ← s.listAt key
    return s.putList key (items.erase value)

/-- Makes changes one after the other, up to the first that is refused. -/
def mutateAll (s : Store) : List Mutation → Store × Option StoreError
  | [] => (s, none)
  | m :: rest =>
    match s.mutate m with
    | .ok s => mutateAll s rest
    | .error e => (s, some e)

/-- What stands under the keys of some changes. -/
def snapshot (s : Store) (changes : List Mutation) : List (String × Option StoreValue) :=
  changes.map fun m => (m.key, s.get? m.key)

/-- Puts back what stood under some keys. -/
def restore (s : Store) (saved : List (String × Option StoreValue)) : Store :=
  saved.foldl (fun s e => s.set e.1 e.2) s

/-- Makes all of the changes, or none of them if one is refused: then what stood under their keys
    is put back. -/
def applyBatch (s : Store) (changes : List Mutation) : Except StoreError Unit × Store :=
  match s.mutateAll changes with
  | (s', none) => (.ok (), s')
  | (s', some e) => (.error e, s'.restore (s.snapshot changes))

/-- The keys that begin with `stem`, in ascending order. The scan begins at the first key that is
    not smaller than `stem` and ends at the first that does not begin with it. -/
def scanKeys (s : Store) (stem : String) : List String :=
  (s.keys.dropWhile fun key => key < stem).takeWhile fun key =>
    stem.toList.isPrefixOf key.toList

/-- Adds one to the number under a key; nothing counts as zero. Numbers are kept modulo 2^64. -/
def increment (s : Store) (key : String) : Except StoreError (Nat × Store) := do
  let current ←
    match ← s.scalarAt key with
    | none => .ok 0
    | some text =>
      match Number.readNatural text.toList with
      | some n => .ok n
      | none => .error (.notACounter key)
  let next := (current + 1) % (Number.maxWord + 1)
  return (next, s.insert key (.scalar (Number.writeNatural next)))

end Store

end StoragePolicy
