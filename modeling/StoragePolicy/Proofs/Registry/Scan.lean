import StoragePolicy.Proofs.Registry.InOrder
import StoragePolicy.Proofs.Registry.Records
import StoragePolicy.Proofs.Store.Keys

/-!
# The scan of the records

The scan of the keys finds every key that begins with the stem of the records. Of a store that is in
order the scan of the records gives every record once, in ascending order of the ids, and finds
nothing that is no record.

## Theorems

* `on_scanDynamic`: What the scan of the records reads.
-/

namespace StoragePolicy

open Registry

namespace Registry

section Filed

variable (s : Store) (h : s.Filed)

include h

/-- Reading the records under their keys gives them one by one. -/
theorem on_scanKeys (keys : List String)
    (hkeys : ∀ key ∈ keys, ∃ r, key = PolicyRecord.storeKey r.id ∧ s.record? r.id = some r) :
    ∃ records : List PolicyRecord, on (scanKeys keys) s = (.ok { records }, s) ∧
      keys = (records.map PolicyRecord.id).map PolicyRecord.storeKey ∧
      ∀ r ∈ records, s.record? r.id = some r := by
  induction keys with
  | nil => exact ⟨[], rfl, rfl, by simp⟩
  | cons key rest ih =>
    rcases ih fun other hother => hkeys other (List.mem_cons_of_mem _ hother) with
      ⟨records, hrest, hkeysRest, hrecords⟩
    rcases hkeys key List.mem_cons_self with ⟨r, rfl, hr⟩
    rcases Store.get?_of_record? s h r.id r hr with ⟨hget, -, hstorable⟩
    refine ⟨r :: records, ?_, ?_, ?_⟩
    · have hhash : s.hashAt (PolicyRecord.storeKey r.id) = .ok r.hash := by
        rw [Store.hashAt, hget]
      refine (on_bind_ok _ _ _ _ _ (on_ask_ok (.getFields _) s r.hash hhash)).trans ?_
      refine (on_bind_ok _ _ _ _ _ hrest).trans ?_
      rw [PolicyRecord.ofFields_hash r hstorable]
      rfl
    · rw [List.map_cons, List.map_cons, ← hkeysRest]
    · intro r' hr'
      rcases List.mem_cons.mp hr' with rfl | hr'
      · exact hr
      · exact hrecords r' hr'

/-- The records that are scanned, before they are put in order. -/
theorem on_scanKeys_keyStem : ∃ records : List PolicyRecord,
    on (scanKeys (s.keysUnder PolicyRecord.keyStem)) s = (.ok { records }, s) ∧
      (records.map PolicyRecord.id).Nodup ∧ ∀ r, r ∈ records ↔ s.record? r.id = some r := by
  -- Under the stem of the keys of records there are records only.
  have hkeys : ∀ key ∈ s.keysUnder PolicyRecord.keyStem,
      ∃ r, key = PolicyRecord.storeKey r.id ∧ s.record? r.id = some r := by
    intro key hkey
    rcases (Store.mem_keysUnder_iff s _ key).mp hkey with ⟨name, rfl, hget⟩
    rcases Option.isSome_iff_exists.mp hget with ⟨value, hvalue⟩
    rcases h name value hvalue with ⟨r, hstorable, rfl, rfl⟩
    exact ⟨r, rfl, Store.recordAt_of_get? s _ r hstorable hvalue⟩
  rcases on_scanKeys s h _ hkeys with ⟨records, hscan, hmap, hrecords⟩
  refine ⟨records, hscan, ?_, fun r => ⟨hrecords r, fun hr => ?_⟩⟩
  · have hscanned : (s.keysUnder PolicyRecord.keyStem).Nodup := (Dict.nodup_keys s).filter _
    rw [hmap] at hscanned
    exact (List.pairwise_map.mp hscanned).imp fun hne heq => hne (congrArg _ heq)
  · have hkey : PolicyRecord.storeKey r.id ∈ s.keysUnder PolicyRecord.keyStem := by
      refine (Store.mem_keysUnder_iff s _ _).mpr ⟨_, rfl, ?_⟩
      rw [(Store.get?_of_record? s h r.id r hr).1]
      rfl
    rw [hmap, List.mem_map] at hkey
    rcases hkey with ⟨id, hid, heq⟩
    rcases List.mem_map.mp hid with ⟨r', hr', rfl⟩
    have hrecord := hrecords r' hr'
    rw [storeKey_inj _ _ heq, hr] at hrecord
    cases hrecord
    exact hr'

/-- The scan gives every record once, in ascending order of the ids, and nothing else. -/
theorem on_scanDynamic : ∃ records : List PolicyRecord,
    on scanDynamic s = (.ok { records }, s) ∧
      (records.map PolicyRecord.id).Pairwise (fun a b => a < b) ∧
      ∀ r, r ∈ records ↔ s.record? r.id = some r := by
  rcases on_scanKeys_keyStem s h with ⟨records, hscan, hnodup, hrecords⟩
  have hon : on scanDynamic s = (.ok { records := inOrder PolicyRecord.id records }, s) := by
    have hask : on (ask (.keys PolicyRecord.keyStem)) s =
        (.ok (s.keysUnder PolicyRecord.keyStem), s) := by
      rw [← Store.scanKeys_eq_keysUnder]
      rfl
    refine (on_bind_ok _ _ _ _ _ hask).trans ?_
    rw [on_bind_ok _ _ _ _ _ hscan]
    rfl
  refine ⟨_, hon, ?_, fun r => ?_⟩
  · have hperm := perm_inOrder PolicyRecord.id records
    have hle := pairwise_inOrder PolicyRecord.id records
    have hne : (inOrder PolicyRecord.id records).Pairwise fun a b => a.id ≠ b.id :=
      List.pairwise_map.mp ((hperm.map PolicyRecord.id).nodup_iff.mpr hnodup)
    exact List.pairwise_map.mpr ((hle.and hne).imp fun hab => Nat.lt_of_le_of_ne hab.1 hab.2)
  · rw [inOrder, List.mem_mergeSort]
    exact hrecords r

end Filed

end Registry

end StoragePolicy
