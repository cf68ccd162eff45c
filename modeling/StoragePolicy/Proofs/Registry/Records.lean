import StoragePolicy.Proofs.Policy.Record
import StoragePolicy.Proofs.Registry.Sparing

/-!
# Records in the store

The registry writes a record under the key of its id and nothing else under such keys. So a store
can be read as a table of records by id, and the calls about records are changes to one line of that
table. What a call does besides, to the counter and the reservations, is the matter of the ledger.

## Main definitions

* `Store.recordAt`, `Store.record?`: The table of records.
* `Store.Filed`: Nothing but records stands under the keys of records.
* `Store.Refiled`: A store that differs from another in one line of the table.

## Theorems

* `record?_refiled`, `filed_refiled`: What a change to one line does to the table.
* `on_getDynamic`, `on_setAlive`, `refiled_deleteDynamic`: What the calls about records read and
  change.
-/

namespace StoragePolicy

open Registry

namespace Store

/-- The record stored under the key of a record that ends with a text, if what is stored there can
    be read as one. -/
def recordAt (s : Store) (name : String) : Option PolicyRecord :=
  match s.get? (PolicyRecord.keyStem ++ name) with
  | some (.hash fields) => (PolicyRecord.ofFields fields).toOption
  | _ => none

/-- The record of an id. -/
def record? (s : Store) (id : Nat) : Option PolicyRecord := s.recordAt (Number.writeNatural id)

/-- Nothing stands under the keys of records but records, each under the key of its id. -/
def Filed (s : Store) : Prop :=
  ∀ name value, s.get? (PolicyRecord.keyStem ++ name) = some value →
    ∃ r : PolicyRecord, r.Storable ∧ name = Number.writeNatural r.id ∧ value = .hash r.hash

/-- A store that differs from another in what stands under the keys of records, and there in the
    record of one id. -/
def Refiled (s t : Store) (id : Nat) (record : Option PolicyRecord) : Prop :=
  ∀ name, t.get? (PolicyRecord.keyStem ++ name) =
    if name = Number.writeNatural id then record.map fun r => .hash r.hash
    else s.get? (PolicyRecord.keyStem ++ name)

/-- A store that does not differ from another in what stands under the keys of records. -/
def SameRecords (s t : Store) : Prop :=
  ∀ name, t.get? (PolicyRecord.keyStem ++ name) = s.get? (PolicyRecord.keyStem ++ name)

theorem recordAt_of_get? (s : Store) (name : String) (r : PolicyRecord) (hr : r.Storable)
    (h : s.get? (PolicyRecord.keyStem ++ name) = some (.hash r.hash)) :
    s.recordAt name = some r := by
  simp only [recordAt, h, PolicyRecord.ofFields_hash r hr]
  rfl

theorem recordAt_of_get?_eq_none (s : Store) (name : String)
    (h : s.get? (PolicyRecord.keyStem ++ name) = none) : s.recordAt name = none := by
  simp only [recordAt, h]

theorem recordAt_congr (s t : Store) (name : String)
    (h : t.get? (PolicyRecord.keyStem ++ name) = s.get? (PolicyRecord.keyStem ++ name)) :
    t.recordAt name = s.recordAt name := by
  rw [recordAt, recordAt, h]

section Filed

variable (s : Store) (h : s.Filed)

include h

/-- A record that is found stands under the key of its own id. -/
theorem get?_of_recordAt (name : String) (r : PolicyRecord) (hr : s.recordAt name = some r) :
    s.get? (PolicyRecord.keyStem ++ name) = some (.hash r.hash) ∧
      name = Number.writeNatural r.id ∧ r.Storable := by
  cases hget : s.get? (PolicyRecord.keyStem ++ name) with
  | none =>
    rw [recordAt_of_get?_eq_none s name hget] at hr
    exact nomatch hr
  | some value =>
    rcases h name value hget with ⟨r', hstorable, hname, rfl⟩
    rw [recordAt_of_get? s name r' hstorable hget] at hr
    cases hr
    exact ⟨rfl, hname, hstorable⟩

theorem get?_of_record? (id : Nat) (r : PolicyRecord) (hr : s.record? id = some r) :
    s.get? (PolicyRecord.storeKey id) = some (.hash r.hash) ∧ r.id = id ∧ r.Storable := by
  rcases get?_of_recordAt s h _ r hr with ⟨hget, hname, hstorable⟩
  exact ⟨hget, (Number.writeNatural_inj _ _ hname).symm, hstorable⟩

theorem get?_of_record?_eq_none (id : Nat) (hr : s.record? id = none) :
    s.get? (PolicyRecord.storeKey id) = none := by
  cases hget : s.get? (PolicyRecord.storeKey id) with
  | none => rfl
  | some value =>
    rcases h _ value hget with ⟨r, hstorable, -, rfl⟩
    rw [record?, recordAt_of_get? s _ r hstorable hget] at hr
    exact nomatch hr

/-- The hash of an id is that of its record; without a record it is empty. -/
theorem hashAt_storeKey (id : Nat) : s.hashAt (PolicyRecord.storeKey id) =
    .ok (((s.record? id).map PolicyRecord.hash).getD Dict.empty) := by
  rw [hashAt]
  cases hr : s.record? id with
  | none => rw [get?_of_record?_eq_none s h id hr]; rfl
  | some r => simp only [(get?_of_record? s h id r hr).1, Option.map_some, Option.getD_some]

omit h in
/-- A change to one line changes the record of that id. -/
theorem record?_refiled (t : Store) (id other : Nat) (record : Option PolicyRecord)
    (ht : s.Refiled t id record) (hrecord : ∀ r, record = some r → r.Storable) :
    t.record? other = if other = id then record else s.record? other := by
  have hget := ht (Number.writeNatural other)
  by_cases hid : other = id
  · rw [if_pos hid]
    rw [if_pos (by rw [hid])] at hget
    cases record with
    | none => exact recordAt_of_get?_eq_none t _ hget
    | some r => exact recordAt_of_get? t _ r (hrecord r rfl) hget
  · rw [if_neg hid]
    rw [if_neg fun heq => hid (Number.writeNatural_inj _ _ heq)] at hget
    exact recordAt_congr s t _ hget

theorem filed_refiled (t : Store) (id : Nat) (record : Option PolicyRecord)
    (ht : s.Refiled t id record) (hrecord : ∀ r, record = some r → r.Storable ∧ r.id = id) :
    t.Filed := by
  intro name value hget
  rw [ht] at hget
  by_cases hname : name = Number.writeNatural id
  · rw [if_pos hname] at hget
    cases record with
    | none => exact nomatch hget
    | some r =>
      cases hget
      have hr := hrecord r rfl
      exact ⟨r, hr.1, by rw [hname, hr.2], rfl⟩
  · rw [if_neg hname] at hget
    exact h name value hget

theorem filed_sameRecords (t : Store) (ht : s.SameRecords t) : t.Filed := by
  intro name value hget
  rw [ht] at hget
  exact h name value hget

end Filed

theorem record?_sameRecords (s t : Store) (h : s.SameRecords t) (id : Nat) :
    t.record? id = s.record? id := recordAt_congr s t _ (h _)

theorem sameRecords_refl (s : Store) : s.SameRecords s := fun _ => rfl

theorem sameRecords_trans (s t u : Store) (h : s.SameRecords t) (h' : t.SameRecords u) :
    s.SameRecords u := fun name => (h' name).trans (h name)

theorem refiled_of_sameRecords (s t u : Store) (id : Nat) (record : Option PolicyRecord)
    (h : s.SameRecords t) (ht : t.Refiled u id record) : s.Refiled u id record := by
  intro name
  rw [ht, h]

theorem refiled_sameRecords (s t u : Store) (id : Nat) (record : Option PolicyRecord)
    (h : s.Refiled t id record) (ht : t.SameRecords u) : s.Refiled u id record := by
  intro name
  rw [ht, h]

/-- Putting a hash under the key of an id changes the line of that id. -/
theorem refiled_putHash (s : Store) (r : PolicyRecord) :
    s.Refiled (s.putHash (PolicyRecord.storeKey r.id) r.hash) r.id (some r) := by
  intro name
  rw [get?_putHash, r.isEmpty_hash, PolicyRecord.storeKey]
  by_cases hname : name = Number.writeNatural r.id
  · rw [if_pos hname, if_pos (by rw [hname])]
    rfl
  · rw [if_neg hname, if_neg fun heq => hname (append_right_inj _ _ _ heq)]

theorem refiled_erase (s : Store) (id : Nat) :
    Refiled s (s.erase (PolicyRecord.storeKey id)) id none := by
  intro name
  rw [Dict.get?_erase, PolicyRecord.storeKey]
  by_cases hname : name = Number.writeNatural id
  · rw [if_pos hname, if_pos (by rw [hname])]
    rfl
  · rw [if_neg hname, if_neg fun heq => hname (append_right_inj _ _ _ heq)]

/-- A line that is what it was told to become has not changed. -/
theorem refiled_self (s : Store) (h : s.Filed) (id : Nat) (record : Option PolicyRecord)
    (hr : s.record? id = record) : s.Refiled s id record := by
  intro name
  by_cases hname : name = Number.writeNatural id
  · rw [if_pos hname, hname]
    cases record with
    | none => exact get?_of_record?_eq_none s h id hr
    | some r => exact (get?_of_record? s h id r hr).1
  · rw [if_neg hname]

/-- Hashes under keys of another kind are no records. -/
theorem sameRecords_putHash (s : Store) (key : String) (fields : Dict String String)
    (hkey : ∀ name, PolicyRecord.keyStem ++ name ≠ key) : s.SameRecords (s.putHash key fields) := by
  intro name
  rw [get?_putHash, if_neg (hkey name)]

end Store

/-! ### The calls about records -/

namespace Registry

section Filed

variable (s : Store) (h : s.Filed)

include h

/-- The record of an id is read as it stands in the table. -/
theorem on_getDynamic (id : Nat) : on (getDynamic id) s = (.ok (s.record? id), s) := by
  have hask : on (ask (.getFields (PolicyRecord.storeKey id))) s =
      (.ok (((s.record? id).map PolicyRecord.hash).getD Dict.empty), s) :=
    on_ask_ok _ s _ (Store.hashAt_storeKey s h id)
  refine (on_bind_ok _ _ _ _ _ hask).trans ?_
  cases hr : s.record? id with
  | none => rfl
  | some r =>
    have hstorable := (Store.get?_of_record? s h id r hr).2.2
    simp only [Option.map_some, Option.getD_some, r.isEmpty_hash, Bool.false_eq_true, if_false,
      PolicyRecord.ofFields_hash r hstorable]
    rfl

/-- Marking a record marks its line, if it has one. -/
theorem on_setAlive (id : Nat) (alive : Bool) :
    (on (setAlive id alive) s).1 = .ok (s.record? id).isSome ∧
      s.Refiled (on (setAlive id alive) s).2 id ((s.record? id).map fun r => r.marked alive) := by
  have hask : on (setAlive id alive) s = (Except.mapError .store (s.updateField
      (PolicyRecord.storeKey id) "alive" (PolicyRecord.flagText alive)).1, (s.updateField
      (PolicyRecord.storeKey id) "alive" (PolicyRecord.flagText alive)).2) := rfl
  rw [hask, Store.updateField, Store.hashAt_storeKey s h id]
  cases hr : s.record? id with
  | none =>
    have hnone : (Dict.empty : Dict String String).contains "alive" = false := rfl
    simp only [Option.map_none, Option.getD_none, hnone, Bool.false_eq_true, if_false]
    exact ⟨rfl, Store.refiled_self s h id none hr⟩
  | some r =>
    have hid := (Store.get?_of_record? s h id r hr).2.1
    simp only [Option.map_some, Option.getD_some, r.contains_hash_alive, if_true,
      r.hash_insert_alive]
    refine ⟨rfl, ?_⟩
    rw [← hid]
    exact Store.refiled_putHash s (r.marked alive)

/-- Deleting a record takes its line away. -/
theorem refiled_deleteDynamic (id : Nat) :
    s.Refiled (on (deleteDynamic id) s).2 id none := by
  have hcontains : on (ask (.contains (PolicyRecord.storeKey id))) s =
      (.ok (Dict.contains s (PolicyRecord.storeKey id)), s) := rfl
  have hon : on (deleteDynamic id) s = on (do
      if Dict.contains s (PolicyRecord.storeKey id) then
        change (.delete (PolicyRecord.storeKey id))
      discard resetIfVacant
      pure (Dict.contains s (PolicyRecord.storeKey id))) s := on_bind_ok _ _ _ _ _ hcontains
  rw [hon]
  -- What is left after the deletion changes no record.
  have hrest : ∀ d : Store, d.SameRecords (on (do
      discard resetIfVacant; pure (Dict.contains s (PolicyRecord.storeKey id)) : Registry Bool)
        d).2 := by
    intro d name
    refine get?_on _ _ ?_ d
    exact makes_reset_then _ _ (by simp [Store.Call.changed, recordKey_ne_counterKey])
  by_cases hkey : Dict.contains s (PolicyRecord.storeKey id) = true
  · have hdelete : on (change (.delete (PolicyRecord.storeKey id))) s =
        (.ok (), s.erase (PolicyRecord.storeKey id)) := rfl
    simp only [hkey, if_true] at hrest ⊢
    rw [on_bind_ok _ _ _ _ _ hdelete]
    exact Store.refiled_sameRecords _ _ _ _ _ (Store.refiled_erase s id) (hrest _)
  · have hnone : s.record? id = none := by
      refine Store.recordAt_of_get?_eq_none s _ ?_
      rw [← PolicyRecord.storeKey]
      rw [Bool.not_eq_true, Dict.contains, Option.isSome_eq_false_iff,
        Option.isNone_iff_eq_none] at hkey
      exact hkey
    rw [Bool.not_eq_true] at hkey
    simp only [hkey] at hrest ⊢
    exact Store.refiled_sameRecords _ _ _ _ _ (Store.refiled_self s h id none hnone) (hrest _)

end Filed

end Registry

end StoragePolicy
