import StoragePolicy.Registry.Catalog
import StoragePolicy.Proofs.Registry.Records
import StoragePolicy.Proofs.Registry.Remains

/-!
# Programs that leave the ids alone

Filters, object types and objectives have keys of their own, none of which the registry mistakes for
a key of ids. Programs that only read, or that only change such definitions, leave the counter, the
reservations, all pipelines and all records as they are, and with them everything that is said of
ids.

## Main definitions

* `Registry.Guarded`: The keys of ids, and all others of which the reset takes notice.
* `Store.Call.Aloof`: Calls that change nothing under these keys.
* `Store.SameGuarded`: Stores that do not differ there.

## Theorems

* `sameGuarded_on`: A program of aloof calls changes nothing under guarded keys.
* `ledger_sameGuarded` and its neighbours: What depends on these keys alone.
* `aloof_listStatic`, `aloof_createObjectType` and their neighbours: Programs that are aloof.
-/

namespace StoragePolicy

open Registry

/-- The counter, and everything of which the reset takes notice. -/
def Registry.Guarded (key : String) : Prop := key = counterKey ∨ Noticed key

/-- Calls that change nothing under guarded keys. -/
def Store.Call.Aloof (c : Store.Call) : Prop := ∀ key ∈ c.changed, ¬ Guarded key

/-- A store that does not differ from another in what stands under guarded keys. -/
def Store.SameGuarded (s t : Store) : Prop := ∀ key, Guarded key → t.get? key = s.get? key

namespace Registry

/-- The keys under which ids are kept are guarded. -/
theorem guarded_of_own (key : String) (h : Own key) : Guarded key := by
  rcases h with rfl | rfl | ⟨targetId, rfl⟩ | ⟨name, rfl⟩
  · exact Or.inl rfl
  · exact Or.inr Store.noticed_reservationKey
  · exact Or.inr (Store.noticed_pipelineKey targetId)
  · exact Or.inr ⟨PolicyRecord.keyStem, by simp [idStems], name, rfl⟩

/-- All guarded keys begin with one letter. -/
theorem head_of_guarded (key : String) (h : Guarded key) : key.toList.head? = some 'p' := by
  rcases h with rfl | ⟨stem, hstem, rest, rfl⟩
  · decide
  · simp only [idStems, List.mem_cons, List.not_mem_nil, or_false] at hstem
    rcases hstem with rfl | rfl | rfl
    · simp [PolicyRecord.keyStem]
    · simp [pipelineStem]
    · simp [reservationKey]

theorem not_guarded_filterKey (name : String) : ¬ Guarded (filterKey name) := by
  intro h
  have hhead := head_of_guarded _ h
  simp [filterKey] at hhead

theorem not_guarded_objectTypeKey (name : String) : ¬ Guarded (objectTypeKey name) := by
  intro h
  have hhead := head_of_guarded _ h
  simp [objectTypeKey, objectTypeStem] at hhead

theorem not_guarded_storeKey (filter name target : String) :
    ¬ Guarded (Slo.storeKey filter name target) := by
  intro h
  have hhead := head_of_guarded _ h
  simp [Slo.storeKey, Slo.keyStem] at hhead

end Registry

/-! ### What stays as it is -/

namespace Store

theorem sameGuarded_refl (s : Store) : s.SameGuarded s := fun _ _ => rfl

/-- An aloof call changes nothing under guarded keys. -/
theorem sameGuarded_exec (s : Store) (c : Call) (hc : c.Aloof) : s.SameGuarded (s.exec c).2 :=
  fun key hkey => get?_exec s c key fun hmem => hc key hmem hkey

section SameGuarded

variable (s t : Store) (h : s.SameGuarded t)

include h

theorem get?_sameGuarded (key : String) (hkey : Own key) : t.get? key = s.get? key :=
  h key (guarded_of_own key hkey)

theorem holds_sameGuarded (text : String) (place : Place) :
    t.Holds text place ↔ s.Holds text place := by
  cases place with
  | reserved =>
    rw [Holds, Holds, field?_congr t s _ _ (get?_sameGuarded s t h _ own_reservationKey)]
  | entry targetId =>
    rw [Holds, Holds, field?_congr t s _ _ (get?_sameGuarded s t h _ (own_pipelineKey targetId))]
  | record =>
    have hown : Own (PolicyRecord.keyStem ++ text) := Or.inr (Or.inr (Or.inr ⟨text, rfl⟩))
    rw [Holds, Holds, get?_sameGuarded s t h _ hown]

theorem ledger_sameGuarded (n : Nat) (hs : s.Ledger n) : t.Ledger n where
  counts := counts_congr s t _ n (h _ (Or.inl rfl)).symm hs.counts
  reservations := hashAt_congr_any s t _ (get?_sameGuarded s t h _ own_reservationKey).symm
    hs.reservations
  pipelines := fun targetId => hashAt_congr_any s t _
    (get?_sameGuarded s t h _ (own_pipelineKey targetId)).symm (hs.pipelines targetId)
  bounded := fun text place hheld =>
    hs.bounded text place ((holds_sameGuarded s t h text place).mp hheld)
  unique := fun text place other hplace hother =>
    hs.unique text place other ((holds_sameGuarded s t h text place).mp hplace)
      ((holds_sameGuarded s t h text other).mp hother)

theorem fitting_sameGuarded (fits : String → String → Prop) (hs : s.Fitting fits) :
    t.Fitting fits :=
  fitting_congr fits s t (fun targetId => get?_sameGuarded s t h _ (own_pipelineKey targetId)) hs

theorem sameRecords_sameGuarded : s.SameRecords t := fun name =>
  get?_sameGuarded s t h _ (Or.inr (Or.inr (Or.inr ⟨name, rfl⟩)))

theorem telling_sameGuarded (hs : s.Telling) : t.Telling :=
  telling_of_noticed s t hs fun key hkey => h key (Or.inr hkey)

end SameGuarded

end Store

namespace Registry

/-- A program of aloof calls changes nothing under guarded keys. -/
theorem sameGuarded_on {α : Type} (p : Registry α) (hp : p.run.Makes Store.Call.Aloof)
    (d : Store) : d.SameGuarded (on p d).2 := fun key hkey =>
  get?_on p key (Program.makes_mono _ _ p.run hp fun _ hc hmem => hc key hmem hkey) d

/-! ### Programs that read -/

/-- A call that changes nothing is aloof. -/
theorem aloof_of_changed_eq_nil (c : Store.Call) (h : c.changed = []) : c.Aloof := by
  intro key hmem
  rw [h] at hmem
  exact absurd hmem List.not_mem_nil

theorem aloof_change (m : Mutation) (h : ¬ Guarded m.key) :
    (change m).run.Makes Store.Call.Aloof := by
  refine makes_ask _ _ fun key hmem => ?_
  rw [List.mem_singleton.mp hmem]
  exact h

/-- A program that reads first is aloof if what it goes on with is. -/
theorem aloof_read {α : Type} (c : Store.Call) (hc : c.changed = []) (f : c.Answer → Registry α)
    (hf : ∀ answer, (f answer).run.Makes Store.Call.Aloof) :
    (ask c >>= f).run.Makes Store.Call.Aloof :=
  makes_bind _ _ _ (makes_ask _ _ (aloof_of_changed_eq_nil c hc)) hf

theorem aloof_entriesOfAll (targets : List String) :
    (entriesOfAll targets).run.Makes Store.Call.Aloof := by
  induction targets with
  | nil => exact makes_pure _ _
  | cons targetId rest ih =>
    refine makes_bind _ _ _ (makes_entriesOf _ targetId (aloof_of_changed_eq_nil _ rfl))
      fun entries => ?_
    exact makes_bind _ _ _ ih fun others => makes_pure _ _

theorem aloof_listStatic (targetId : Option String) :
    (listStatic targetId).run.Makes Store.Call.Aloof := by
  have hlist : ∀ targets : List String, (do
      let listed ← entriesOfAll targets
      return inOrder (fun e => e.2.executionOrder) listed :
        Registry (List (String × StaticEntry))).run.Makes Store.Call.Aloof := fun targets =>
    makes_bind _ _ _ (aloof_entriesOfAll targets) fun listed => makes_pure _ _
  cases targetId with
  | some targetId => exact hlist [targetId]
  | none => exact aloof_read _ rfl _ fun keys => hlist (keys.map (dropStem pipelineStem))

theorem aloof_scanKeys (keys : List String) : (scanKeys keys).run.Makes Store.Call.Aloof := by
  induction keys with
  | nil => exact makes_pure _ _
  | cons key rest ih =>
    refine aloof_read _ rfl _ fun fields => makes_bind _ _ _ ih fun scan => ?_
    split <;> exact makes_pure _ _

theorem aloof_listDynamic : listDynamic.run.Makes Store.Call.Aloof := by
  refine makes_bind _ _ _ ?_ fun scan => makes_pure _ _
  exact aloof_read _ rfl _ fun keys =>
    makes_bind _ _ _ (aloof_scanKeys keys) fun scan => makes_pure _ _

theorem aloof_getDynamic (id : Nat) : (getDynamic id).run.Makes Store.Call.Aloof := by
  refine aloof_read _ rfl _ fun fields => ?_
  split
  · exact makes_pure _ _
  · exact makes_bind _ _ _ (makes_ofExcept _ _) fun record => makes_pure _ _

theorem aloof_objectTypesOf (keys : List String) :
    (objectTypesOf keys).run.Makes Store.Call.Aloof := by
  induction keys with
  | nil => exact makes_pure _ _
  | cons key rest ih =>
    exact aloof_read _ rfl _ fun extensions => makes_bind _ _ _ ih fun others => makes_pure _ _

theorem aloof_listObjectTypes : listObjectTypes.run.Makes Store.Call.Aloof :=
  aloof_read _ rfl _ fun keys => aloof_objectTypesOf keys

theorem aloof_getObjectType (name : String) :
    (getObjectType name).run.Makes Store.Call.Aloof := by
  refine aloof_read _ rfl _ fun extensions => ?_
  split
  · exact makes_pure _ _
  · exact makes_pure _ _

theorem aloof_slosOf (keys : List String) : (slosOf keys).run.Makes Store.Call.Aloof := by
  induction keys with
  | nil => exact makes_pure _ _
  | cons key rest ih =>
    unfold slosOf
    split
    · exact ih
    · refine aloof_read _ rfl _ fun stored => makes_bind _ _ _ ih fun others => ?_
      cases stored <;> exact makes_pure _ _

theorem aloof_listSlos : listSlos.run.Makes Store.Call.Aloof :=
  aloof_read _ rfl _ fun keys => aloof_slosOf keys

/-! ### Programs that change definitions -/

theorem aloof_putFilter (filter : FilterSpec) : (putFilter filter).run.Makes Store.Call.Aloof := by
  refine makes_ask _ _ fun key hmem => ?_
  simp only [Store.Call.changed, List.map_map, List.mem_map, Function.comp_def] at hmem
  rcases hmem with ⟨field, -, rfl⟩
  exact not_guarded_filterKey filter.name

theorem aloof_createObjectType (t : ObjectType) :
    (createObjectType t).run.Makes Store.Call.Aloof := by
  refine makes_bind _ _ _ (makes_ofExcept _ _) fun _ => aloof_read _ rfl _ fun existed => ?_
  cases existed with
  | true => exact makes_throw _ _
  | false => exact aloof_change _ (not_guarded_objectTypeKey t.name)

theorem aloof_replaceObjectType (t : ObjectType) :
    (replaceObjectType t).run.Makes Store.Call.Aloof := by
  refine makes_bind _ _ _ (makes_ofExcept _ _) fun _ => aloof_read _ rfl _ fun existed => ?_
  cases existed with
  | false => exact makes_throw _ _
  | true =>
    refine makes_ask _ _ fun key hmem => ?_
    have hkey : key = objectTypeKey t.name := by
      simpa [Store.Call.changed, Mutation.key] using hmem
    rw [hkey]
    exact not_guarded_objectTypeKey t.name

theorem aloof_deleteObjectType (name : String) :
    (deleteObjectType name).run.Makes Store.Call.Aloof := by
  refine aloof_read _ rfl _ fun existed => ?_
  cases existed with
  | false => exact makes_throw _ _
  | true => exact aloof_change _ (not_guarded_objectTypeKey name)

theorem aloof_removeExtension (name extension : String) :
    (removeExtension name extension).run.Makes Store.Call.Aloof := by
  refine aloof_read _ rfl _ fun extensions => ?_
  split
  · exact makes_throw _ _
  · exact aloof_change _ (not_guarded_objectTypeKey name)

theorem aloof_deleteSlo (filter name target : String) :
    (Registry.deleteSlo filter name target).run.Makes Store.Call.Aloof := by
  refine aloof_read _ rfl _ fun existed => ?_
  exact makes_bind _ _ _ (aloof_change _ (not_guarded_storeKey filter name target))
    fun _ => makes_pure _ _

end Registry

end StoragePolicy
