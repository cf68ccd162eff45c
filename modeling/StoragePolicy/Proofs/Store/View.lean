import StoragePolicy.Store.Call

/-!
# The store seen by key

What a change does to a store is said here once by look-up: a hash under a key may be put there
whole, and everything else stays. Later proofs go by these laws and never open a change again.

A hash and its absence are told apart nowhere: `hashAt` answers with no fields for a key that does
not exist, and putting an empty hash takes the key away. So a hash that is put is the hash that is
found, whatever its fields are.

## Main definitions

* `Store.field?`: A field of a hash, if there is one.
* `Store.keysUnder`: The keys that begin with a text.
* `Dict.insertAll`: A dictionary with several entries put into it.

## Theorems

* `get?_putHash`, `hashAt_putHash`, `field?_putHash`: What putting a hash does.
* `mutateAll_setFields`: Setting fields of one hash one by one puts the hash with all of them.
* `applyBatch_of_mutateAll`: Changes of which none is refused are all made.
-/

namespace StoragePolicy

namespace Dict

variable {κ ν : Type} [SortKey κ]

instance [DecidableEq ν] : DecidableEq (Dict κ ν) := fun a b =>
  decidable_of_iff (a.entries = b.entries)
    ⟨fun h => by cases a; cases b; cases h; rfl, congrArg entries⟩

theorem get?_eq_none_of_isEmpty (d : Dict κ ν) (h : d.isEmpty = true) (key : κ) :
    d.get? key = none := by
  rw [isEmpty, List.isEmpty_iff] at h
  rw [get?, h, find]

theorem eq_empty_of_isEmpty (d : Dict κ ν) (h : d.isEmpty = true) : d = empty := by
  refine ext_get? d empty fun key => ?_
  rw [get?_eq_none_of_isEmpty d h key, get?_empty]

theorem isEmpty_eq_false_of_get? (d : Dict κ ν) (key : κ) (value : ν)
    (h : d.get? key = some value) : d.isEmpty = false := by
  cases he : d.isEmpty with
  | false => rfl
  | true => rw [get?_eq_none_of_isEmpty d he key] at h; exact absurd h (by simp)

theorem isEmpty_insert (d : Dict κ ν) (key : κ) (value : ν) :
    (d.insert key value).isEmpty = false :=
  isEmpty_eq_false_of_get? _ key value (by rw [get?_insert, if_pos rfl])

theorem mem_keys_iff (d : Dict κ ν) (key : κ) : key ∈ d.keys ↔ (d.get? key).isSome = true := by
  rw [keys, List.mem_map, Option.isSome_iff_exists]
  constructor
  · rintro ⟨⟨k, value⟩, hmem, rfl⟩
    exact ⟨value, (mem_entries_iff d k value).mp hmem⟩
  · rintro ⟨value, hget⟩
    exact ⟨(key, value), (mem_entries_iff d key value).mpr hget, rfl⟩

theorem contains_iff (d : Dict κ ν) (key : κ) :
    d.contains key = true ↔ ∃ value, d.get? key = some value := by
  rw [contains, Option.isSome_iff_exists]

/-- Keys stand in strictly ascending order, so none stands there twice. -/
theorem nodup_keys (d : Dict κ ν) : d.keys.Nodup := by
  rw [keys, List.Nodup, List.pairwise_map]
  refine d.ascending.imp ?_
  intro a b hlt heq
  rw [heq] at hlt
  exact SortKey.irrefl _ hlt

theorem get?_adjust (d : Dict κ ν) (key other : κ) (change : ν → ν) :
    (d.adjust key change).get? other =
      if other = key then (d.get? key).map change else d.get? other := by
  rw [adjust]
  cases hget : d.get? key with
  | none =>
    by_cases hkey : other = key
    · rw [if_pos hkey, hkey]
      exact hget
    · rw [if_neg hkey]
  | some value => exact get?_insert d key other (change value)

/-- A dictionary with several entries put into it, one after the other. -/
def insertAll (d : Dict κ ν) (entries : List (κ × ν)) : Dict κ ν :=
  entries.foldl (fun d e => d.insert e.1 e.2) d

/-- Of several entries put in with one key the last counts. -/
theorem get?_insertAll (d : Dict κ ν) (entries : List (κ × ν)) (key : κ) :
    (d.insertAll entries).get? key =
      ((entries.reverse.find? fun e => e.1 = key).map Prod.snd).or (d.get? key) := by
  induction entries generalizing d with
  | nil => simp [insertAll]
  | cons e rest ih =>
    rw [insertAll, List.foldl_cons, ← insertAll, ih, get?_insert, List.reverse_cons,
      List.find?_append]
    cases rest.reverse.find? fun e => e.1 = key with
    | some found => rfl
    | none =>
      by_cases hkey : key = e.1
      · simp [hkey]
      · simp [hkey, Ne.symm hkey]

theorem get?_ofList (entries : List (κ × ν)) (key : κ) :
    (ofList entries).get? key = (entries.reverse.find? fun e => e.1 = key).map Prod.snd := by
  have h := get?_insertAll empty entries key
  rw [get?_empty, Option.or_none] at h
  exact h

/-- Of a dictionary from which the keys of several items are taken the rest stays. -/
theorem get?_eraseAll {β : Type} (f : β → κ) (d : Dict κ ν) (items : List β) (key : κ) :
    (items.foldl (fun d item => d.erase (f item)) d).get? key =
      if ∃ item ∈ items, key = f item then none else d.get? key := by
  induction items generalizing d with
  | nil => simp
  | cons item rest ih =>
    rw [List.foldl_cons, ih, get?_erase]
    by_cases hrest : ∃ item ∈ rest, key = f item
    · rw [if_pos hrest, if_pos (hrest.imp fun _ h => ⟨List.mem_cons_of_mem _ h.1, h.2⟩)]
    · rw [if_neg hrest]
      by_cases hkey : key = f item
      · rw [if_pos hkey, if_pos ⟨item, List.mem_cons_self, hkey⟩]
      · rw [if_neg hkey, if_neg]
        rintro ⟨other, hother, heq⟩
        rcases List.mem_cons.mp hother with rfl | hother
        · exact hkey heq
        · exact hrest ⟨other, hother, heq⟩

theorem erase_of_get?_eq_none (d : Dict κ ν) (key : κ) (h : d.get? key = none) :
    d.erase key = d := by
  refine ext_get? _ _ fun other => ?_
  rw [get?_erase]
  by_cases hkey : other = key
  · rw [if_pos hkey, hkey, h]
  · rw [if_neg hkey]

theorem insertAll_empty (entries : List (κ × ν)) : insertAll empty entries = ofList entries := rfl

end Dict

namespace Store

/-- A field of the hash under a key, if there is one. -/
def field? (s : Store) (key name : String) : Option String :=
  match s.get? key with
  | some (.hash fields) => fields.get? name
  | _ => none

/-- The keys that begin with a text. -/
def keysUnder (s : Store) (stem : String) : List String :=
  s.keys.filter fun key => stem.toList.isPrefixOf key.toList

/-- A key that begins with a text is that text with another behind it. -/
theorem mem_keysUnder_iff (s : Store) (stem key : String) :
    key ∈ s.keysUnder stem ↔ ∃ rest, key = stem ++ rest ∧ (s.get? key).isSome = true := by
  rw [keysUnder, List.mem_filter, Dict.mem_keys_iff, List.isPrefixOf_iff_prefix]
  constructor
  · rintro ⟨hget, rest, hrest⟩
    refine ⟨String.ofList rest, ?_, hget⟩
    rw [← String.toList_inj, String.toList_append, String.toList_ofList, hrest]
  · rintro ⟨rest, rfl, hget⟩
    exact ⟨hget, by rw [String.toList_append]; exact List.prefix_append _ _⟩

/-- What stands where after a hash has been put: the hash, if it has fields, and else nothing. -/
theorem get?_putHash (s : Store) (key other : String) (fields : Dict String String) :
    (s.putHash key fields).get? other =
      if other = key then (if fields.isEmpty then none else some (.hash fields))
      else s.get? other := by
  rw [putHash]
  by_cases he : fields.isEmpty = true
  · by_cases ho : other = key <;> simp [he, ho]
  · by_cases ho : other = key <;> simp [he, ho]

/-- What is found after a hash has been put is that hash, which has fields, or was there before. -/
theorem get?_putHash_cases (s : Store) (key other : String) (fields : Dict String String)
    (value : StoreValue) (h : (s.putHash key fields).get? other = some value) :
    (other = key ∧ value = .hash fields ∧ fields.isEmpty = false) ∨
      (other ≠ key ∧ s.get? other = some value) := by
  rw [get?_putHash] at h
  by_cases ho : other = key
  · rw [if_pos ho] at h
    cases hempty : fields.isEmpty with
    | true => simp [hempty] at h
    | false =>
      simp only [hempty, Bool.false_eq_true, if_false, Option.some.injEq] at h
      exact Or.inl ⟨ho, h.symm, rfl⟩
  · rw [if_neg ho] at h
    exact Or.inr ⟨ho, h⟩

theorem hashAt_congr (s t : Store) (key : String) (h : s.get? key = t.get? key) :
    s.hashAt key = t.hashAt key := by
  rw [hashAt, hashAt, h]

theorem field?_congr (s t : Store) (key name : String) (h : s.get? key = t.get? key) :
    s.field? key name = t.field? key name := by
  rw [field?, field?, h]

/-- A field can only be found where there is something. -/
theorem isSome_get?_of_field? (s : Store) (key name : String)
    (h : (s.field? key name).isSome = true) : (s.get? key).isSome = true := by
  cases hget : s.get? key with
  | none =>
    rw [field?, hget] at h
    exact nomatch h
  | some value => rfl

/-- No field is found where there is no hash. -/
theorem field?_of_not_hash (s : Store) (key name : String)
    (h : ∀ fields, s.get? key ≠ some (.hash fields)) : s.field? key name = none := by
  rw [field?]
  split
  · rename_i fields hget
    exact absurd hget (h fields)
  · rfl

/-- A hash that is put is found, whatever its fields are. -/
theorem hashAt_putHash (s : Store) (key other : String) (fields : Dict String String) :
    (s.putHash key fields).hashAt other =
      if other = key then .ok fields else s.hashAt other := by
  by_cases ho : other = key
  · rw [if_pos ho, hashAt, get?_putHash, if_pos ho]
    by_cases he : fields.isEmpty = true
    · rw [if_pos he, Dict.eq_empty_of_isEmpty fields he]
    · rw [if_neg he]
  · rw [if_neg ho]
    refine hashAt_congr _ _ _ ?_
    rw [get?_putHash, if_neg ho]

theorem field?_of_hashAt (s : Store) (key name : String) (fields : Dict String String)
    (h : s.hashAt key = .ok fields) : s.field? key name = fields.get? name := by
  rw [hashAt] at h
  rw [field?]
  cases hg : s.get? key with
  | none =>
    rw [hg] at h
    cases h
    exact (Dict.get?_empty name).symm
  | some value =>
    rw [hg] at h
    cases value with
    | hash given => cases h; rfl
    | scalar text => exact absurd h (by simp)
    | list items => exact absurd h (by simp)

theorem field?_putHash (s : Store) (key other name : String) (fields : Dict String String) :
    (s.putHash key fields).field? other name =
      if other = key then fields.get? name else s.field? other name := by
  by_cases ho : other = key
  · rw [if_pos ho]
    exact field?_of_hashAt _ _ _ _ (by rw [hashAt_putHash, if_pos ho])
  · rw [if_neg ho]
    exact field?_congr _ _ _ _ (by rw [get?_putHash, if_neg ho])

/-- Of two hashes put under one key the second counts. -/
theorem putHash_putHash (s : Store) (key : String) (first second : Dict String String) :
    (s.putHash key first).putHash key second = s.putHash key second := by
  refine Dict.ext_get? _ _ fun other => ?_
  rw [get?_putHash, get?_putHash, get?_putHash]
  by_cases ho : other = key <;> simp [ho]

theorem mutate_setField (s : Store) (key name value : String) (fields : Dict String String)
    (h : s.hashAt key = .ok fields) :
    s.mutate (.setField key name value) = .ok (s.putHash key (fields.insert name value)) := by
  rw [mutate, h]
  rfl

theorem mutate_deleteField (s : Store) (key name : String) (fields : Dict String String)
    (h : s.hashAt key = .ok fields) :
    s.mutate (.deleteField key name) = .ok (s.putHash key (fields.erase name)) := by
  rw [mutate, h]
  rfl

theorem mutateAll_cons_ok (s t : Store) (m : Mutation) (rest : List Mutation)
    (h : s.mutate m = .ok t) : s.mutateAll (m :: rest) = t.mutateAll rest := by
  rw [mutateAll, h]

theorem mutateAll_append_ok (s t : Store) (first second : List Mutation)
    (h : s.mutateAll first = (t, none)) :
    s.mutateAll (first ++ second) = t.mutateAll second := by
  induction first generalizing s with
  | nil =>
    rw [mutateAll] at h
    rw [List.nil_append, (Prod.mk.inj h).1]
  | cons m rest ih =>
    rw [mutateAll] at h
    rw [List.cons_append, mutateAll]
    cases hm : s.mutate m with
    | error e => rw [hm] at h; exact absurd (Prod.mk.inj h).2 (by simp)
    | ok s' =>
      rw [hm] at h
      exact ih s' h

/-- Setting fields of one hash one by one puts the hash with all of them. -/
theorem mutateAll_setFields (s : Store) (key : String) (fields : Dict String String)
    (entries : List (String × String)) (hne : entries ≠ []) (h : s.hashAt key = .ok fields) :
    s.mutateAll (entries.map fun e => .setField key e.1 e.2) =
      (s.putHash key (fields.insertAll entries), none) := by
  induction entries generalizing s fields with
  | nil => exact absurd rfl hne
  | cons e rest ih =>
    rw [List.map_cons, mutateAll_cons_ok _ _ _ _ (mutate_setField s key e.1 e.2 fields h)]
    have hput : (s.putHash key (fields.insert e.1 e.2)).hashAt key =
        .ok (fields.insert e.1 e.2) := by
      rw [hashAt_putHash, if_pos rfl]
    cases rest with
    | nil => rfl
    | cons e' rest' =>
      rw [ih _ _ (List.cons_ne_nil _ _) hput, putHash_putHash]
      rfl

/-- Changes of which none is refused are all made. -/
theorem applyBatch_of_mutateAll (s t : Store) (changes : List Mutation)
    (h : s.mutateAll changes = (t, none)) : s.applyBatch changes = (.ok (), t) := by
  rw [applyBatch, h]

theorem applyBatch_single (s t : Store) (m : Mutation) (h : s.mutate m = .ok t) :
    s.applyBatch [m] = (.ok (), t) := by
  refine applyBatch_of_mutateAll s t [m] ?_
  rw [mutateAll_cons_ok s t m [] h, mutateAll]

end Store

end StoragePolicy
