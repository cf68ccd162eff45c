import StoragePolicy.Proofs.Registry.Scan

/-!
# What the scan finds

Under the keys of records other hashes may stand, which cannot be decoded. The scan tells them from
the records and loses nothing: of every key it finds either a record or an error. What it relies on
is that there are hashes only, and that a record stands under the key of its id.

## Main definitions

* `Store.Scannable`: A store that the scan can read.
* `Store.Undecodable`: The keys of hashes that are no records.
* `Registry.Scan.Finds`: What a scan has to find.

## Theorems

* `on_scanKeys_of_scannable`: Every key that is read gives a record or an error.
* `on_scanDynamic_of_scannable`: The scan finds every record and every hash that is none, once.
-/

namespace StoragePolicy

open Registry

namespace Store

/-- Under the keys of records there are hashes only, and those that can be decoded stand under the
    keys of their ids. -/
structure Scannable (s : Store) : Prop where
  hash (name : String) (value : StoreValue)
    (h : s.get? (PolicyRecord.keyStem ++ name) = some value) : ∃ fields, value = .hash fields
  own (name : String) (fields : Dict String String) (r : PolicyRecord)
    (h : s.get? (PolicyRecord.keyStem ++ name) = some (.hash fields))
    (hr : PolicyRecord.ofFields fields = .ok r) : name = Number.writeNatural r.id

/-- Under a key of a record there is a hash that cannot be decoded. -/
def Undecodable (s : Store) (key : String) (e : RecordError) : Prop :=
  ∃ name fields, key = PolicyRecord.keyStem ++ name ∧ s.get? key = some (.hash fields) ∧
    PolicyRecord.ofFields fields = .error e

/-- A hash of which a record is read is none that cannot be decoded. -/
theorem not_undecodable_of_record? (s : Store) (r : PolicyRecord) (h : s.record? r.id = some r)
    (e : RecordError) : ¬ s.Undecodable (PolicyRecord.storeKey r.id) e := by
  rintro ⟨name, fields, -, hget, he⟩
  rw [PolicyRecord.storeKey] at hget
  rw [record?, recordAt, hget] at h
  simp [he, Except.toOption] at h

theorem mem_keysUnder_of_record? (s : Store) (r : PolicyRecord) (h : s.record? r.id = some r) :
    PolicyRecord.storeKey r.id ∈ s.keysUnder PolicyRecord.keyStem := by
  refine (mem_keysUnder_iff s _ _).mpr ⟨_, rfl, ?_⟩
  rw [record?, recordAt] at h
  rw [PolicyRecord.storeKey]
  cases hget : s.get? (PolicyRecord.keyStem ++ Number.writeNatural r.id) with
  | none =>
    rw [hget] at h
    cases h
  | some value => rfl

theorem mem_keysUnder_of_undecodable (s : Store) (key : String) (e : RecordError)
    (h : s.Undecodable key e) : key ∈ s.keysUnder PolicyRecord.keyStem := by
  rcases h with ⟨name, fields, rfl, hget, -⟩
  exact (mem_keysUnder_iff s _ _).mpr ⟨name, rfl, by rw [hget]; rfl⟩

/-- One key cannot be decoded for one reason. -/
theorem undecodable_unique (s : Store) (key : String) (e e' : RecordError)
    (h : s.Undecodable key e) (h' : s.Undecodable key e') : e = e' := by
  rcases h with ⟨-, fields, -, hget, he⟩
  rcases h' with ⟨-, fields', -, hget', he'⟩
  rw [hget] at hget'
  cases hget'
  rw [he] at he'
  cases he'
  rfl

end Store

namespace Registry

/-- A scan finds every record, in ascending order of the ids, and every hash that is none, each
    once: together they are all keys of the stem. -/
structure Scan.Finds (scan : Scan) (s : Store) : Prop where
  keys : (scan.records.map (fun r => PolicyRecord.storeKey r.id) ++
    scan.undecodable.map Prod.fst).Perm (s.keysUnder PolicyRecord.keyStem)
  records : ∀ r, r ∈ scan.records ↔ s.record? r.id = some r
  undecodable : ∀ key e, (key, e) ∈ scan.undecodable ↔ s.Undecodable key e
  ascending : (scan.records.map PolicyRecord.id).Pairwise fun a b => a < b

/-- Of the records that are alive no two have one id. -/
theorem Scan.Finds.distinct (scan : Scan) (s : Store) (h : scan.Finds s) :
    ((scan.records.filter PolicyRecord.alive).map PolicyRecord.id).Nodup :=
  (h.ascending.imp Nat.ne_of_lt).sublist (List.filter_sublist.map _)

section Scannable

variable (s : Store) (h : s.Scannable)

include h

/-- Every key that is read gives a record or an error. -/
theorem on_scanKeys_of_scannable (keys : List String)
    (hkeys : ∀ key ∈ keys, key ∈ s.keysUnder PolicyRecord.keyStem) :
    ∃ scan : Scan, on (scanKeys keys) s = (.ok scan, s) ∧
      (scan.records.map (fun r => PolicyRecord.storeKey r.id) ++
        scan.undecodable.map Prod.fst).Perm keys ∧
      (∀ r ∈ scan.records, s.record? r.id = some r) ∧
      ∀ entry ∈ scan.undecodable, s.Undecodable entry.1 entry.2 := by
  induction keys with
  | nil => exact ⟨{}, rfl, .refl _, by simp, by simp⟩
  | cons key rest ih =>
    rcases ih fun other hother => hkeys other (List.mem_cons_of_mem _ hother) with
      ⟨scan, hrest, hperm, hrecords, hundecodable⟩
    rcases (Store.mem_keysUnder_iff s _ key).mp (hkeys key List.mem_cons_self) with
      ⟨name, rfl, hsome⟩
    rcases Option.isSome_iff_exists.mp hsome with ⟨value, hget⟩
    rcases h.hash name value hget with ⟨fields, rfl⟩
    have hhash : s.hashAt (PolicyRecord.keyStem ++ name) = .ok fields := by
      rw [Store.hashAt, hget]
    have hask := on_ask_ok (.getFields (PolicyRecord.keyStem ++ name)) s fields hhash
    -- A record that is decoded has the id of its key, so that key is the one it is stored under.
    cases hdecoded : PolicyRecord.ofFields fields with
    | ok r =>
      have hname := h.own name fields r hget hdecoded
      have hkey : PolicyRecord.keyStem ++ name = PolicyRecord.storeKey r.id := by
        rw [hname, PolicyRecord.storeKey]
      refine ⟨{ scan with records := r :: scan.records }, ?_, ?_, ?_, hundecodable⟩
      · refine (on_bind_ok _ _ _ _ _ hask).trans ((on_bind_ok _ _ _ _ _ hrest).trans ?_)
        rw [hdecoded]
        rfl
      · rw [hkey]
        exact hperm.cons _
      · intro r' hr'
        rcases List.mem_cons.mp hr' with rfl | hr'
        · rw [hname] at hget
          rw [Store.record?, Store.recordAt, hget]
          simp only [hdecoded, Except.toOption]
        · exact hrecords r' hr'
    | error e =>
      refine ⟨{ scan with
        undecodable := (PolicyRecord.keyStem ++ name, e) :: scan.undecodable },
        ?_, List.perm_middle.trans (hperm.cons _), hrecords, ?_⟩
      · refine (on_bind_ok _ _ _ _ _ hask).trans ((on_bind_ok _ _ _ _ _ hrest).trans ?_)
        rw [hdecoded]
        rfl
      · intro entry hentry
        rcases List.mem_cons.mp hentry with rfl | hentry
        · exact ⟨name, fields, rfl, hget, hdecoded⟩
        · exact hundecodable entry hentry

/-- The scan finds every record and every hash that is none, once. -/
theorem on_scanDynamic_of_scannable :
    ∃ scan : Scan, on scanDynamic s = (.ok scan, s) ∧ scan.Finds s := by
  rcases on_scanKeys_of_scannable s h _ fun _ hkey => hkey with
    ⟨scan, hscan, hperm, hrecords, hundecodable⟩
  have hnodup := hperm.nodup_iff.mpr ((Dict.nodup_keys s).filter _)
  have hon : on scanDynamic s =
      (.ok { scan with records := inOrder PolicyRecord.id scan.records }, s) := by
    have hask : on (ask (.keys PolicyRecord.keyStem)) s =
        (.ok (s.keysUnder PolicyRecord.keyStem), s) := by
      rw [← Store.scanKeys_eq_keysUnder]
      rfl
    exact (on_bind_ok _ _ _ _ _ hask).trans (on_bind_ok _ _ _ _ _ hscan)
  have hsorted := perm_inOrder PolicyRecord.id scan.records
  refine ⟨_, hon, ⟨?_, fun r => ?_, fun key e => ?_, ?_⟩⟩
  · exact ((hsorted.map _).append_right _).trans hperm
  · rw [hsorted.mem_iff]
    refine ⟨hrecords r, fun hr => ?_⟩
    -- The key has been scanned, so that the hash is listed as a record or as none.
    have hkey := hperm.mem_iff.mpr (Store.mem_keysUnder_of_record? s r hr)
    rcases List.mem_append.mp hkey with hfound | hfound
    · rcases List.mem_map.mp hfound with ⟨r', hr', heq⟩
      have hother := hrecords r' hr'
      rw [storeKey_inj _ _ heq, hr] at hother
      cases hother
      exact hr'
    · rcases List.mem_map.mp hfound with ⟨entry, hentry, heq⟩
      have hbad := hundecodable entry hentry
      rw [heq] at hbad
      exact absurd hbad (Store.not_undecodable_of_record? s r hr _)
  · refine ⟨hundecodable (key, e), fun hbad => ?_⟩
    have hkey := hperm.mem_iff.mpr (Store.mem_keysUnder_of_undecodable s key e hbad)
    rcases List.mem_append.mp hkey with hfound | hfound
    · rcases List.mem_map.mp hfound with ⟨r, hr, rfl⟩
      exact absurd hbad (Store.not_undecodable_of_record? s r (hrecords r hr) e)
    · rcases List.mem_map.mp hfound with ⟨⟨key', e'⟩, hentry, rfl⟩
      rwa [Store.undecodable_unique s _ e e' hbad (hundecodable _ hentry)]
  · have hids : (scan.records.map PolicyRecord.id).Nodup := by
      refine (List.pairwise_map.mp (List.nodup_append.mp hnodup).1).map _ fun a b hne heq => ?_
      exact hne (congrArg PolicyRecord.storeKey heq)
    have hne := List.pairwise_map.mp ((hsorted.map PolicyRecord.id).nodup_iff.mpr hids)
    exact List.pairwise_map.mpr (((pairwise_inOrder PolicyRecord.id scan.records).and hne).imp
      fun hab => Nat.lt_of_le_of_ne hab.1 hab.2)

end Scannable

end Registry

end StoragePolicy
