import StoragePolicy.Proofs.Registry.Records
import StoragePolicy.Proofs.Store.Atomic

/-!
# Records are read back

What is stored of a record are texts, and two records come to the same texts only if they differ in
that one has no object type and the other one without a name. So a record is read back as it was, or
as it was but for such an object type. The hash into which a record is put may hold anything: the
fields of the record take the place of what was there, and nobody looks at the others.

## Main definitions

* `PolicyRecord.Sized`: Records whose numbers can be held.
* `PolicyRecord.asRead`: What a record is read back as.

## Theorems

* `ofFields_hash_of_sized`: What the fields of a record are decoded as.
* `ofFields_insertAll`: It does not matter what else is in the hash.
* `putDynamic_ok_iff`: When a record can be put.
* `reread_of_putDynamic`: A record that has been put is read back, and no other is touched.
-/

namespace StoragePolicy

open Registry

namespace PolicyRecord

/-- Records whose numbers can be held. -/
structure Sized (r : PolicyRecord) : Prop where
  id : r.id ≤ Number.maxWord
  actionIndex : r.actionIndex ≤ Number.maxWord
  objectSize : ∀ size, r.objectSize = some size → size.value ≤ Number.maxWord

/-- What a record is read back as: an object type without a name is none. -/
def asRead (r : PolicyRecord) : PolicyRecord :=
  { r with objectType := r.objectType.filter fun name => !name.isEmpty }

theorem objectType_asRead_ne (r : PolicyRecord) : r.asRead.objectType ≠ some "" := by
  intro h
  have hname := (Option.filter_eq_some_iff.mp h).2
  exact absurd hname (by decide)

theorem asRead_eq_self_iff (r : PolicyRecord) : r.asRead = r ↔ r.objectType ≠ some "" := by
  constructor
  · intro h
    rw [← h]
    exact objectType_asRead_ne r
  · intro h
    have hkept : r.objectType.filter (fun name => !name.isEmpty) = r.objectType := by
      cases htype : r.objectType with
      | none => rfl
      | some name =>
        have hname : name ≠ "" := fun hempty => h (by rw [htype, hempty])
        rw [Option.filter_some, if_pos (by simpa using hname)]
    rw [asRead, hkept]

theorem storable_asRead (r : PolicyRecord) (h : r.Sized) : r.asRead.Storable :=
  ⟨h.id, h.actionIndex, objectType_asRead_ne r, h.objectSize⟩

/-- An object type without a name and none are the same text. -/
theorem toFields_asRead (r : PolicyRecord) : r.asRead.toFields = r.toFields := by
  have htype : r.asRead.objectType.getD "" = r.objectType.getD "" := by
    rw [asRead]
    cases r.objectType with
    | none => rfl
    | some name =>
      by_cases hname : name = ""
      · rw [hname]
        rfl
      · rw [Option.filter_some, if_pos (by simpa using hname)]
  rw [toFields, htype]
  rfl

/-- The fields of a record are decoded as that record, but for an object type without a name. -/
theorem ofFields_hash_of_sized (r : PolicyRecord) (h : r.Sized) :
    ofFields r.hash = .ok r.asRead := by
  have hread := ofFields_hash r.asRead (storable_asRead r h)
  rwa [hash, toFields_asRead, ← hash] at hread

/-- The fields of a record take the place of what was there. -/
theorem get?_insertAll_toFields (r : PolicyRecord) (fields : Dict String String) (name : String)
    (h : name ∈ r.toFields.map Prod.fst) :
    (fields.insertAll r.toFields).get? name = r.hash.get? name := by
  rw [Dict.get?_insertAll, hash, Dict.get?_ofList]
  cases hfound : r.toFields.reverse.find? fun e => e.1 = name with
  | some e => rfl
  | none =>
    rcases List.mem_map.mp h with ⟨e, he, hname⟩
    have hnot := List.find?_eq_none.mp hfound e (List.mem_reverse.mpr he)
    exact absurd hname (by simpa using hnot)

/-- Only the fields that a record has are looked at. -/
theorem ofFields_congr (r : PolicyRecord) (a b : Dict String String)
    (h : ∀ name ∈ r.toFields.map Prod.fst, a.get? name = b.get? name) :
    ofFields a = ofFields b := by
  simp only [ofFields, numberField, flagField, sizeField, filled, present,
    h "id" (by simp [toFields]), h "action_index" (by simp [toFields]),
    h "object_size" (by simp [toFields]), h "raw_rule_text" (by simp [toFields]),
    h "target_name" (by simp [toFields]), h "target_id" (by simp [toFields]),
    h "filter_name" (by simp [toFields]), h "action" (by simp [toFields]),
    h "condition_text" (by simp [toFields]), h "transient" (by simp [toFields]),
    h "alive" (by simp [toFields]), h "object_type" (by simp [toFields]),
    h "dispatch_location" (by simp [toFields])]

/-- A record is decoded from a hash that it was put into, whatever else that holds. -/
theorem ofFields_insertAll (r : PolicyRecord) (h : r.Sized) (fields : Dict String String) :
    ofFields (fields.insertAll r.toFields) = .ok r.asRead := by
  rw [ofFields_congr r _ r.hash (get?_insertAll_toFields r fields), ofFields_hash_of_sized r h]

theorem isEmpty_insertAll (r : PolicyRecord) (fields : Dict String String) :
    (fields.insertAll r.toFields).isEmpty = false := by
  refine Dict.isEmpty_eq_false_of_get? _ "id" (Number.writeNatural r.id) ?_
  rw [get?_insertAll_toFields r fields "id" (by simp [toFields]), hash, Dict.get?_ofList]
  rfl

end PolicyRecord

namespace Registry

/-- What is read of the record of an id depends on the hash under its key alone. -/
theorem on_getDynamic_hashAt (id : Nat) (d : Store) :
    on (getDynamic id) d =
      (match d.hashAt (PolicyRecord.storeKey id) with
        | .ok fields =>
          if fields.isEmpty then .ok none
          else ((PolicyRecord.ofFields fields).mapError .undecodableRecord).map some
        | .error e => .error (.store e), d) := by
  cases hhash : d.hashAt (PolicyRecord.storeKey id) with
  | error e =>
    have hask : on (ask (.getFields (PolicyRecord.storeKey id))) d = (.error (.store e), d) := by
      rw [on_ask, Store.exec, hhash]
      rfl
    exact on_bind_error _ _ _ _ _ hask
  | ok fields =>
    refine (on_bind_ok _ _ _ _ _ (on_ask_ok (.getFields _) d fields hhash)).trans ?_
    dsimp only
    split
    · rfl
    · cases PolicyRecord.ofFields fields <;> rfl

/-- Fields can only be given to what is a hash. -/
theorem hashAt_of_setFields (d t : Store) (key : String) (entries : List (String × String))
    (hne : entries ≠ [])
    (h : (entries.map fun e => .setField key e.1 e.2).foldlM Store.mutate d = .ok t) :
    ∃ fields, d.hashAt key = .ok fields := by
  cases entries with
  | nil => exact absurd rfl hne
  | cons e rest =>
    rw [List.map_cons, List.foldlM_cons] at h
    rcases (Outcome.bind_eq_ok _ _ _).mp h with ⟨next, hset, -⟩
    rcases (Outcome.bind_eq_ok _ _ _).mp hset with ⟨fields, hfields, -⟩
    exact ⟨fields, hfields⟩

/-- A record can be put if no value of another kind stands under its key or that of the
    reservations. -/
theorem putDynamic_ok_iff (r : PolicyRecord) (d : Store) :
    (on (putDynamic r) d).1 = .ok () ↔
      ∃ fields reserved, d.hashAt (PolicyRecord.storeKey r.id) = .ok fields ∧
        d.hashAt reservationKey = .ok reserved := by
  have hon : (on (putDynamic r) d).1 =
      Except.mapError .store (d.applyBatch (recordChanges r)).1 := rfl
  constructor
  · intro h
    rw [hon, Outcome.mapError_eq_ok, Store.applyBatch_eq_foldlM] at h
    cases hall : (recordChanges r).foldlM Store.mutate d with
    | error e =>
      rw [hall] at h
      exact nomatch h
    | ok t =>
      rw [recordChanges, List.foldlM_append] at hall
      rcases (Outcome.bind_eq_ok _ _ _).mp hall with ⟨u, hsets, hrelease⟩
      rcases hashAt_of_setFields d u _ r.toFields (List.cons_ne_nil _ _) hsets with
        ⟨fields, hfields⟩
      -- The hash of the reservations is still the one that was there before the fields were set.
      rw [Store.foldlM_mutate, Store.mutateAll_setFields d _ fields r.toFields
        (List.cons_ne_nil _ _) hfields] at hsets
      cases hsets
      rw [List.foldlM_cons] at hrelease
      rcases (Outcome.bind_eq_ok _ _ _).mp hrelease with ⟨last, hdelete, -⟩
      rcases (Outcome.bind_eq_ok _ _ _).mp hdelete with ⟨reserved, hreserved, -⟩
      rw [Store.hashAt_putHash, PolicyRecord.storeKey,
        if_neg (recordKey_ne_reservationKey _).symm] at hreserved
      exact ⟨fields, reserved, hfields, hreserved⟩
  · rintro ⟨fields, reserved, hfields, hreserved⟩
    have hexec : (d.applyBatch (recordChanges r)).1 = .ok () :=
      congrArg Prod.fst (Store.exec_putDynamic d r fields reserved hfields hreserved)
    rw [hon, hexec]
    rfl

/-- The fields of a record that has been put are in its hash, and the hashes of other records are
    those from before. -/
theorem hashAt_of_putDynamic (r : PolicyRecord) (d : Store) (h : (on (putDynamic r) d).1 = .ok ()) :
    (∃ fields : Dict String String, (on (putDynamic r) d).2.hashAt (PolicyRecord.storeKey r.id) =
      .ok (fields.insertAll r.toFields)) ∧
    ∀ id, id ≠ r.id → (on (putDynamic r) d).2.hashAt (PolicyRecord.storeKey id) =
      d.hashAt (PolicyRecord.storeKey id) := by
  rcases (putDynamic_ok_iff r d).mp h with ⟨fields, reserved, hfields, hreserved⟩
  have hstore : (on (putDynamic r) d).2 = (d.exec (.apply (recordChanges r))).2 := rfl
  have hne : ∀ id, PolicyRecord.storeKey id ≠ reservationKey :=
    fun id => recordKey_ne_reservationKey _
  rw [hstore, Store.exec_putDynamic d r fields reserved hfields hreserved]
  refine ⟨⟨fields, ?_⟩, fun id hid => ?_⟩
  · rw [Store.hashAt_putHash, if_neg (hne _), Store.hashAt_putHash, if_pos rfl]
  · rw [Store.hashAt_putHash, if_neg (hne _), Store.hashAt_putHash,
      if_neg fun hkey => hid (storeKey_inj _ _ hkey)]

/-- A record that has been put is read back as what its fields are decoded as. -/
theorem on_getDynamic_of_putDynamic (r : PolicyRecord) (hr : r.Sized) (d : Store)
    (h : (on (putDynamic r) d).1 = .ok ()) :
    (on (getDynamic r.id) (on (putDynamic r) d).2).1 = .ok (some r.asRead) := by
  rcases (hashAt_of_putDynamic r d h).1 with ⟨fields, hfields⟩
  rw [on_getDynamic_hashAt, hfields]
  dsimp only
  rw [r.isEmpty_insertAll fields, r.ofFields_insertAll hr fields]
  rfl

/-- A record whose numbers can be held is decoded from its fields as it was exactly if its object
    type is not the empty text. It is then also read back from any store into which it can be put,
    whatever its hash has held there, and what is read under any other id stays the same. -/
theorem reread_of_putDynamic (r : PolicyRecord) (hr : r.Sized) :
    (PolicyRecord.ofFields (Dict.ofList r.toFields) = .ok r ↔ r.objectType ≠ some "") ∧
      ∀ d : Store, (on (putDynamic r) d).1 = .ok () →
        ((on (getDynamic r.id) (on (putDynamic r) d).2).1 = .ok (some r) ↔
          r.objectType ≠ some "") ∧
        ∀ id, id ≠ r.id → (on (getDynamic id) (on (putDynamic r) d).2).1 =
          (on (getDynamic id) d).1 := by
  have hfields := PolicyRecord.ofFields_hash_of_sized r hr
  rw [PolicyRecord.hash] at hfields
  refine ⟨?_, fun d hput => ⟨?_, fun id hid => ?_⟩⟩
  · rw [hfields, Except.ok.injEq]
    exact r.asRead_eq_self_iff
  · rw [on_getDynamic_of_putDynamic r hr d hput, Except.ok.injEq, Option.some.injEq]
    exact r.asRead_eq_self_iff
  · rw [on_getDynamic_hashAt, on_getDynamic_hashAt, (hashAt_of_putDynamic r d hput).2 id hid]

/-- A record with a bound and without an object type. -/
def bounded : PolicyRecord :=
  { id := 7, ruleText := "TENANT alice WHEN put_bw > 1 DO SET compress TO OBJECT_SIZE > 10",
    targetName := "alice", targetId := "t1", filterName := "compress", verb := "SET",
    actionIndex := 0, conditionText := "put_bw > 1", objectSize := some ⟨">", 10⟩,
    transient := false, dispatchLocation := "node", alive := true }

/-- Under the key of that record stands what is no record, and under another one a text. -/
def littered : Store :=
  Dict.ofList [("policy:7", .hash (Dict.ofList [("alive", "perhaps"), ("object_type", "docs"),
    ("owner", "bob")])), ("policy:8", .scalar "x")]

theorem reread_of_putDynamic_littered : bounded.Sized ∧
    (on (putDynamic bounded) littered).1 = .ok () ∧
    (on (getDynamic 7) littered).1 = .error (.undecodableRecord (.missingField "id")) ∧
    (on (getDynamic 7) (on (putDynamic bounded) littered).2).1 = .ok (some bounded) ∧
    (on (getDynamic 8) (on (putDynamic bounded) littered).2).1 =
      .error (.store (.wrongType "policy:8")) := by
  have hsized : bounded.Sized := ⟨by decide, by decide, fun size h => by cases h; decide⟩
  have hput : (on (putDynamic bounded) littered).1 = .ok () :=
    (putDynamic_ok_iff bounded littered).mpr ⟨_, _, rfl, rfl⟩
  have hread := (reread_of_putDynamic bounded hsized).2 littered hput
  refine ⟨hsized, hput, rfl, hread.1.mpr (by decide), ?_⟩
  rw [hread.2 8 (by decide)]
  rfl

end Registry

end StoragePolicy
