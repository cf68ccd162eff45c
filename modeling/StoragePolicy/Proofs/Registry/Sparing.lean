import StoragePolicy.Proofs.Registry.Ids
import StoragePolicy.Proofs.Store.Frame

/-!
# Calls that spare the ids in use

Most calls of the registry neither put an id into use nor end a reservation: they read, they delete
an entry or a record, they mark a record, or they set the counter back. Such calls keep the ledger
in order at whatever point they fall, and so does a program made of nothing else, whatever is
replied to it.

## Main definitions

* `Store.Call.Sparing`: Such calls.

## Theorems

* `ledger_exec_sparing`: A sparing call keeps the ledger in order.
* `sparing_deleteMatching` and its neighbours: The deletions are sparing programs.
-/

namespace StoragePolicy

open Registry

/-- The calls that put no id into use and release no reservation. -/
def Store.Call.Sparing : Store.Call → Prop
  | .get _ | .getField _ _ | .getFields _ | .getItems _ | .contains _ | .keys _ => True
  | .resetIfVacant counter stems => counter = counterKey ∧ stems = idStems
  | .updateField key _ _ => ∃ id, key = PolicyRecord.storeKey id
  | .apply [.deleteField key _] => ∃ targetId, key = pipelineKey targetId
  | .apply [.delete key] => ∃ id, key = PolicyRecord.storeKey id
  | _ => False

namespace Store

theorem counts_zero_insert (s : Store) :
    Counts (s.insert counterKey (.scalar "0")) counterKey 0 :=
  counts_insert s counterKey 0 (Nat.zero_le _)

/-- A store in which an id is in use has a key of which the reset takes notice. -/
theorem any_idStems_of_holds (s : Store) (text : String) (place : Place)
    (h : s.Holds text place) :
    (s.keys.any fun key => idStems.any fun stem => stem.toList.isPrefixOf key.toList) = true := by
  -- Each kind of place lies under one of the stems that the reset looks for.
  have hstem : ∃ stem ∈ idStems, ∃ rest, (s.get? (stem ++ rest)).isSome = true := by
    cases place with
    | reserved =>
      refine ⟨reservationKey, by simp [idStems], "", ?_⟩
      rw [String.append_empty]
      exact isSome_get?_of_field? s _ text h
    | entry targetId =>
      exact ⟨pipelineStem, by simp [idStems], targetId, isSome_get?_of_field? s _ text h⟩
    | record => exact ⟨PolicyRecord.keyStem, by simp [idStems], text, h⟩
  rcases hstem with ⟨stem, hmem, rest, hget⟩
  refine List.any_eq_true.mpr ⟨stem ++ rest, (Dict.mem_keys_iff s _).mpr hget, ?_⟩
  refine List.any_eq_true.mpr ⟨stem, hmem, ?_⟩
  rw [String.toList_append, List.isPrefixOf_iff_prefix]
  exact List.prefix_append _ _

/-- Setting the counter back keeps the ledger in order, since it is done only while no id is in
    use. -/
theorem ledger_reset (s : Store) (n : Nat) (h : s.Ledger n) :
    ∃ m, m ≤ n ∧ (s.exec resetCall).2.Ledger m ∧
      ∀ text place, (s.exec resetCall).2.Holds text place ↔ s.Holds text place := by
  simp only [exec, resetIfVacant]
  split
  · exact ⟨n, Nat.le_refl n, h, fun _ _ => Iff.rfl⟩
  · rename_i hvacant
    have hnone : ∀ text place, ¬ s.Holds text place := fun text place hp =>
      hvacant (any_idStems_of_holds s text place hp)
    split
    · exact ⟨n, Nat.le_refl n, h, fun _ _ => Iff.rfl⟩
    · have hother : ∀ key, key ≠ counterKey →
          s.get? key = Dict.get? (s.insert counterKey (.scalar "0")) key := by
        intro key hkey
        rw [Dict.get?_insert, if_neg hkey]
      have hsame : ∀ text place,
          Holds (s.insert counterKey (.scalar "0")) text place ↔ s.Holds text place :=
        fun text place => (holds_congr _ _ text place hother).symm
      refine ⟨0, Nat.zero_le n, ⟨counts_zero_insert s, ?_, ?_, ?_, ?_⟩, hsame⟩
      · exact hashAt_congr_any s _ _ (hother _ counterKey_ne_reservationKey.symm) h.reservations
      · intro targetId
        exact hashAt_congr_any s _ _ (hother _ (pipelineKey_ne_counterKey targetId))
          (h.pipelines targetId)
      · intro text place hp
        exact absurd ((hsame text place).mp hp) (hnone text place)
      · intro text place other hp _
        exact absurd ((hsame text place).mp hp) (hnone text place)
    · exact ⟨n, Nat.le_refl n, h, fun _ _ => Iff.rfl⟩

/-- Putting a hash after which nothing new is in use keeps the ledger in order. -/
theorem ledger_putHash (s : Store) (n : Nat) (key : String) (fields : Dict String String)
    (h : s.Ledger n) (hne : key ≠ counterKey)
    (hholds : ∀ text place, (s.putHash key fields).Holds text place → s.Holds text place) :
    (s.putHash key fields).Ledger n := by
  refine ledger_shrink s _ n h ?_ ?_ ?_ hholds
  · exact counts_congr s _ _ n (get?_putHash_counter s key fields hne) h.counts
  · exact hashAt_putHash_any s key _ fields h.reservations
  · exact fun targetId => hashAt_putHash_any s key _ fields (h.pipelines targetId)

/-- A hash that has a field stands under its key. -/
theorem isSome_of_hashAt (s : Store) (key name : String) (fields : Dict String String)
    (h : s.hashAt key = .ok fields) (hname : fields.contains name = true) :
    (s.get? key).isSome = true := by
  cases hget : s.get? key with
  | some value => rfl
  | none =>
    rw [hashAt, hget] at h
    cases h
    rcases (Dict.contains_iff _ name).mp hname with ⟨value, hvalue⟩
    rw [Dict.get?_empty] at hvalue
    exact absurd hvalue (by simp)

theorem ledger_updateField (s : Store) (n id : Nat) (name value : String) (h : s.Ledger n) :
    (s.exec (.updateField (PolicyRecord.storeKey id) name value)).2.Ledger n ∧
      ∀ text place, (s.exec (.updateField (PolicyRecord.storeKey id) name value)).2.Holds
        text place ↔ s.Holds text place := by
  simp only [exec, updateField]
  cases hfields : s.hashAt (PolicyRecord.storeKey id) with
  | error e => exact ⟨h, fun _ _ => Iff.rfl⟩
  | ok fields =>
    dsimp only
    split
    · rename_i hname
      -- A field is set only where there is one already, so that the record is there before and
      -- after.
      have hsame : ∀ text place,
          (s.putHash (PolicyRecord.storeKey id) (fields.insert name value)).Holds text place ↔
            s.Holds text place := by
        intro text place
        rw [PolicyRecord.storeKey, holds_putHash_record]
        by_cases hp : place = .record ∧ text = Number.writeNatural id
        · rw [if_pos hp, hp.1, hp.2]
          have hold := isSome_of_hashAt s _ name fields hfields hname
          exact ⟨fun _ => hold, fun _ => Dict.isEmpty_insert fields name value⟩
        · rw [if_neg hp]
      refine ⟨?_, hsame⟩
      exact ledger_putHash s n _ _ h (recordKey_ne_counterKey _) fun text place =>
        (hsame text place).mp
    · exact ⟨h, fun _ _ => Iff.rfl⟩

theorem ledger_deleteEntry (s : Store) (n : Nat) (targetId name : String) (h : s.Ledger n) :
    (s.exec (.apply [.deleteField (pipelineKey targetId) name])).2.Ledger n ∧
      ∀ text place, (s.exec (.apply [.deleteField (pipelineKey targetId) name])).2.Holds
        text place ↔ s.Holds text place ∧ ¬(place = .entry targetId ∧ text = name) := by
  rcases h.pipelines targetId with ⟨fields, hfields⟩
  rw [exec, applyBatch_single s _ _ (mutate_deleteField s _ name fields hfields)]
  have hholds : ∀ text place,
      (s.putHash (pipelineKey targetId) (fields.erase name)).Holds text place ↔
        s.Holds text place ∧ ¬(place = .entry targetId ∧ text = name) := by
    intro text place
    rw [holds_putHash_pipeline]
    by_cases hp : place = .entry targetId
    · subst hp
      rw [if_pos rfl, Dict.get?_erase, Holds, field?_of_hashAt s _ _ fields hfields]
      by_cases ht : text = name <;> simp [ht]
    · rw [if_neg hp]
      simp [hp]
  refine ⟨?_, hholds⟩
  exact ledger_putHash s n _ _ h (pipelineKey_ne_counterKey targetId) fun text place hp =>
    ((hholds text place).mp hp).1

theorem ledger_deleteRecord (s : Store) (n id : Nat) (h : s.Ledger n) :
    (s.exec (.apply [.delete (PolicyRecord.storeKey id)])).2.Ledger n ∧
      ∀ text place, (s.exec (.apply [.delete (PolicyRecord.storeKey id)])).2.Holds
        text place ↔ s.Holds text place ∧ ¬(place = .record ∧ text = Number.writeNatural id) := by
  rw [exec, applyBatch_single s (s.erase (PolicyRecord.storeKey id)) _ rfl]
  refine ⟨?_, fun text place => holds_erase_record s _ text place⟩
  -- Taking a key away is putting an empty hash under it.
  refine ledger_putHash s n (PolicyRecord.storeKey id) Dict.empty h (recordKey_ne_counterKey _)
    fun text place hp => ?_
  exact ((holds_erase_record s _ text place).mp hp).1

/-- A sparing call keeps the ledger in order, puts no id into use, and ends no reservation. -/
theorem ledger_exec_sparing (s : Store) (n : Nat) (c : Call) (h : s.Ledger n) (hc : c.Sparing) :
    ∃ m, m ≤ n ∧ (s.exec c).2.Ledger m ∧
      (∀ text place, (s.exec c).2.Holds text place → s.Holds text place) ∧
      ∀ text, s.Holds text .reserved → (s.exec c).2.Holds text .reserved := by
  -- All calls that only read leave the store as it is.
  have hread : (s.exec c).2 = s → ∃ m, m ≤ n ∧ (s.exec c).2.Ledger m ∧
      (∀ text place, (s.exec c).2.Holds text place → s.Holds text place) ∧
      ∀ text, s.Holds text .reserved → (s.exec c).2.Holds text .reserved := by
    intro hs
    rw [hs]
    exact ⟨n, Nat.le_refl n, h, fun _ _ hp => hp, fun _ hp => hp⟩
  cases c with
  | get key => exact hread rfl
  | getField key name => exact hread rfl
  | getFields key => exact hread rfl
  | getItems key => exact hread rfl
  | contains key => exact hread rfl
  | keys stem => exact hread rfl
  | increment key => exact absurd hc id
  | incrementReserving counter reservations => exact absurd hc id
  | resetIfVacant counter stems =>
    rcases hc with ⟨rfl, rfl⟩
    rcases ledger_reset s n h with ⟨m, hle, hledger, hsame⟩
    exact ⟨m, hle, hledger, fun text place => (hsame text place).mp,
      fun text => (hsame text .reserved).mpr⟩
  | updateField key name value =>
    rcases hc with ⟨id, rfl⟩
    have hstep := ledger_updateField s n id name value h
    exact ⟨n, Nat.le_refl n, hstep.1, fun text place => (hstep.2 text place).mp,
      fun text => (hstep.2 text .reserved).mpr⟩
  | apply changes =>
    match changes, hc with
    | [.deleteField _ name], ⟨targetId, rfl⟩ =>
      have hstep := ledger_deleteEntry s n targetId name h
      exact ⟨n, Nat.le_refl n, hstep.1, fun text place hp => ((hstep.2 text place).mp hp).1,
        fun text hp => (hstep.2 text .reserved).mpr ⟨hp, by simp⟩⟩
    | [.delete _], ⟨id, rfl⟩ =>
      have hstep := ledger_deleteRecord s n id h
      exact ⟨n, Nat.le_refl n, hstep.1, fun text place hp => ((hstep.2 text place).mp hp).1,
        fun text hp => (hstep.2 text .reserved).mpr ⟨hp, by simp⟩⟩

end Store

/-! ### The deletions -/

namespace Registry

variable (kind : Store.Call → Prop)

theorem makes_resetIfVacant (hreset : kind resetCall) : resetIfVacant.run.Makes kind :=
  makes_ask kind _ hreset

/-- The end of every deletion: the counter is set back if it may, and the answer is given. -/
theorem makes_reset_then {α : Type} (a : α) (hreset : kind resetCall) :
    (do discard resetIfVacant; pure a : Registry α).run.Makes kind :=
  makes_bind kind _ _ (makes_discard kind _ (makes_resetIfVacant kind hreset))
    fun _ => makes_pure kind a

theorem makes_deleteStatic (targetId : String) (id : Nat)
    (hget : kind (.getField (pipelineKey targetId) (Number.writeNatural id)))
    (hdelete : kind (.apply [.deleteField (pipelineKey targetId) (Number.writeNatural id)]))
    (hreset : kind resetCall) : (deleteStatic targetId id).run.Makes kind := by
  refine makes_bind kind _ _ (makes_ask kind _ hget) fun stored => ?_
  by_cases hstored : stored.isSome = true
  · simp only [hstored, if_true]
    exact makes_bind kind _ _ (makes_ask kind _ hdelete) fun _ =>
      makes_reset_then kind _ hreset
  · simp only [hstored]
    exact makes_reset_then kind _ hreset

theorem makes_deleteFields (key : String) (ids : List Nat)
    (hdelete : ∀ name, kind (.apply [.deleteField key name])) :
    (deleteFields key ids).run.Makes kind := by
  induction ids with
  | nil => exact makes_pure kind _
  | cons id rest ih => exact makes_bind kind _ _ (makes_ask kind _ (hdelete _)) fun _ => ih

theorem makes_entriesOf (targetId : String) (hget : kind (.getFields (pipelineKey targetId))) :
    (entriesOf targetId).run.Makes kind := by
  refine makes_bind kind _ _ (makes_ask kind _ hget) fun fields => ?_
  exact makes_bind kind _ _ (makes_ofExcept kind _) fun entries => makes_pure kind _

theorem makes_deleteMatching (targetId filterName : String)
    (hget : kind (.getFields (pipelineKey targetId)))
    (hdelete : ∀ name, kind (.apply [.deleteField (pipelineKey targetId) name]))
    (hreset : kind resetCall) : (deleteMatching targetId filterName).run.Makes kind := by
  refine makes_bind kind _ _ (makes_entriesOf kind targetId hget) fun entries => ?_
  refine makes_bind kind _ _ (makes_deleteFields kind _ _ hdelete) fun _ => ?_
  exact makes_reset_then kind _ hreset

theorem makes_deleteDynamic (id : Nat) (hcontains : kind (.contains (PolicyRecord.storeKey id)))
    (hdelete : kind (.apply [.delete (PolicyRecord.storeKey id)])) (hreset : kind resetCall) :
    (deleteDynamic id).run.Makes kind := by
  refine makes_bind kind _ _ (makes_ask kind _ hcontains) fun existed => ?_
  cases existed with
  | true =>
    exact makes_bind kind _ _ (makes_ask kind _ hdelete) fun _ => makes_reset_then kind _ hreset
  | false => exact makes_reset_then kind _ hreset

theorem sparing_resetIfVacant : resetIfVacant.run.Makes Store.Call.Sparing :=
  makes_resetIfVacant _ ⟨rfl, rfl⟩

theorem sparing_deleteStatic (targetId : String) (id : Nat) :
    (deleteStatic targetId id).run.Makes Store.Call.Sparing :=
  makes_deleteStatic _ targetId id trivial ⟨targetId, rfl⟩ ⟨rfl, rfl⟩

theorem sparing_deleteMatching (targetId filterName : String) :
    (deleteMatching targetId filterName).run.Makes Store.Call.Sparing :=
  makes_deleteMatching _ targetId filterName trivial (fun _ => ⟨targetId, rfl⟩) ⟨rfl, rfl⟩

theorem sparing_deleteDynamic (id : Nat) : (deleteDynamic id).run.Makes Store.Call.Sparing :=
  makes_deleteDynamic _ id trivial ⟨id, rfl⟩ ⟨rfl, rfl⟩

theorem sparing_setAlive (id : Nat) (alive : Bool) :
    (setAlive id alive).run.Makes Store.Call.Sparing :=
  makes_ask _ _ ⟨id, rfl⟩

end Registry

end StoragePolicy
