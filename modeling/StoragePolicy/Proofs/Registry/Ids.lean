import StoragePolicy.Registry.Dynamic
import StoragePolicy.Proofs.Number.Natural
import StoragePolicy.Proofs.Store.View

/-!
# Ids in use

An id is in use in one of three kinds of places: as a field of the hash of reservations, as a field
of some pipeline, or in the key of a record. The registry keeps a ledger of them without ever
writing it down as one: ids in different places differ, and none is greater than the counter.

The counter is set back to zero only when no place holds an id. That is what keeps the ledger in
order across a reset, so the vacancy of the store is treated here as the absence of any holder.

## Main definitions

* `Registry.Own`: The keys under which ids are kept.
* `Place`, `Store.Holds`: Where an id is in use.
* `Store.Counts`: The number that a counter stands at.
* `Store.Ledger`: The ids in use are distinct and bounded by the counter.

## Theorems

* `holds_putHash_pipeline` and its neighbours: What each change does to the holders.
* `ledger_of_vacant`: A store that keeps no ids is in order.
* `exec_nextId`, `exec_putStatic`, `exec_putDynamic`: What the calls that move an id do.
* `ledger_nextId`, `ledger_move`, `ledger_shrink`: The ledger stays in order.
-/

namespace StoragePolicy

open Registry

/-- A kind of place in which an id is in use. -/
inductive Place where
  | reserved
  | entry (targetId : String)
  | record
  deriving Repr, DecidableEq

namespace Registry

theorem counterKey_ne_reservationKey : counterKey ≠ reservationKey := by decide

theorem pipelineKey_ne_counterKey (targetId : String) : pipelineKey targetId ≠ counterKey := by
  intro h
  have hchars := congrArg String.toList h
  simp [pipelineKey, pipelineStem, counterKey] at hchars

theorem pipelineKey_ne_reservationKey (targetId : String) :
    pipelineKey targetId ≠ reservationKey := by
  intro h
  have hchars := congrArg String.toList h
  simp [pipelineKey, pipelineStem, reservationKey] at hchars

theorem recordKey_ne_counterKey (text : String) : PolicyRecord.keyStem ++ text ≠ counterKey := by
  intro h
  have hchars := congrArg String.toList h
  simp [PolicyRecord.keyStem, counterKey] at hchars

theorem recordKey_ne_reservationKey (text : String) :
    PolicyRecord.keyStem ++ text ≠ reservationKey := by
  intro h
  have hchars := congrArg String.toList h
  simp [PolicyRecord.keyStem, reservationKey] at hchars

theorem recordKey_ne_pipelineKey (text targetId : String) :
    PolicyRecord.keyStem ++ text ≠ pipelineKey targetId := by
  intro h
  have hchars := congrArg String.toList h
  simp [PolicyRecord.keyStem, pipelineKey, pipelineStem] at hchars

theorem append_right_inj (stem a b : String) (h : stem ++ a = stem ++ b) : a = b := by
  have hchars := congrArg String.toList h
  rw [String.toList_append, String.toList_append, List.append_cancel_left_eq] at hchars
  exact String.toList_inj.mp hchars

theorem storeKey_inj (i j : Nat) (h : PolicyRecord.storeKey i = PolicyRecord.storeKey j) :
    i = j :=
  Number.writeNatural_inj i j (append_right_inj _ _ _ h)

/-- The keys under which ids are kept. Everything else in the store is the catalog. -/
def Own (key : String) : Prop :=
  key = counterKey ∨ key = reservationKey ∨ (∃ targetId, key = pipelineKey targetId) ∨
    ∃ name, key = PolicyRecord.keyStem ++ name

/-- The call that takes an id. -/
abbrev nextIdCall : Store.Call := .incrementReserving counterKey reservationKey

/-- The call that stores an entry and ends the reservation of its id. -/
abbrev putStaticCall (targetId : String) (id : Nat) (entry : StaticEntry) : Store.Call :=
  .apply [.setField (pipelineKey targetId) (Number.writeNatural id) entry.toText, release id]

/-- The call that sets the counter back if it may. -/
abbrev resetCall : Store.Call := .resetIfVacant counterKey idStems

end Registry

namespace Store

/-- Whether an id, given as a text, is in use in a place. -/
def Holds (s : Store) (text : String) : Place → Prop
  | .reserved => (s.field? reservationKey text).isSome = true
  | .entry targetId => (s.field? (pipelineKey targetId) text).isSome = true
  | .record => (s.get? (PolicyRecord.keyStem ++ text)).isSome = true

/-- The number at which the counter under a key stands; none counts as zero. -/
def Counts (s : Store) (key : String) (n : Nat) : Prop :=
  n ≤ Number.maxWord ∧
    (s.get? key = some (.scalar (Number.writeNatural n)) ∨ s.get? key = none ∧ n = 0)

/-- Whether a key holds a hash, be it one without fields. -/
def HashAt (s : Store) (key : String) : Prop := ∃ fields, s.hashAt key = .ok fields

/-- The ids in use are distinct, begin with one, and do not exceed the counter, which stands at
    `n`. The places in which they are used are hashes. -/
structure Ledger (s : Store) (n : Nat) : Prop where
  counts : s.Counts counterKey n
  reservations : s.HashAt reservationKey
  pipelines : ∀ targetId, s.HashAt (pipelineKey targetId)
  bounded : ∀ text place, s.Holds text place →
    ∃ id, text = Number.writeNatural id ∧ 1 ≤ id ∧ id ≤ n
  unique : ∀ text place other, s.Holds text place → s.Holds text other → place = other

/-! ### The beginning -/

section Vacant

variable (s : Store) (h : ∀ key, Own key → s.get? key = none)

include h

theorem not_holds_of_vacant (text : String) (place : Place) : ¬ s.Holds text place := by
  cases place with
  | reserved => simp [Holds, field?, h _ (Or.inr (Or.inl rfl))]
  | entry targetId => simp [Holds, field?, h _ (Or.inr (Or.inr (Or.inl ⟨targetId, rfl⟩)))]
  | record => simp [Holds, h _ (Or.inr (Or.inr (Or.inr ⟨text, rfl⟩)))]

/-- A store that keeps no ids is a ledger of none. -/
theorem ledger_of_vacant : s.Ledger 0 where
  counts := ⟨Nat.zero_le _, Or.inr ⟨h _ (Or.inl rfl), rfl⟩⟩
  reservations := ⟨Dict.empty, by rw [hashAt, h _ (Or.inr (Or.inl rfl))]⟩
  pipelines := fun targetId =>
    ⟨Dict.empty, by rw [hashAt, h _ (Or.inr (Or.inr (Or.inl ⟨targetId, rfl⟩)))]⟩
  bounded := fun text place hheld => absurd hheld (not_holds_of_vacant s h text place)
  unique := fun text place _ hheld _ => absurd hheld (not_holds_of_vacant s h text place)

end Vacant

/-! ### What changes do to the holders -/

theorem holds_congr (s t : Store) (text : String) (place : Place)
    (h : ∀ key, key ≠ counterKey → s.get? key = t.get? key) :
    s.Holds text place ↔ t.Holds text place := by
  cases place with
  | reserved =>
    rw [Holds, Holds, field?_congr s t _ _ (h _ counterKey_ne_reservationKey.symm)]
  | entry targetId =>
    rw [Holds, Holds, field?_congr s t _ _ (h _ (pipelineKey_ne_counterKey targetId))]
  | record => rw [Holds, Holds, h _ (recordKey_ne_counterKey text)]

theorem holds_putHash_reservations (s : Store) (fields : Dict String String) (text : String)
    (place : Place) :
    (s.putHash reservationKey fields).Holds text place ↔
      if place = .reserved then (fields.get? text).isSome = true else s.Holds text place := by
  cases place with
  | reserved => rw [Holds, field?_putHash, if_pos rfl, if_pos rfl]
  | entry targetId =>
    rw [Holds, field?_putHash, if_neg (pipelineKey_ne_reservationKey targetId), if_neg (by simp),
      Holds]
  | record =>
    rw [Holds, get?_putHash, if_neg (recordKey_ne_reservationKey text), if_neg (by simp), Holds]

theorem holds_putHash_pipeline (s : Store) (targetId : String) (fields : Dict String String)
    (text : String) (place : Place) :
    (s.putHash (pipelineKey targetId) fields).Holds text place ↔
      if place = .entry targetId then (fields.get? text).isSome = true
      else s.Holds text place := by
  cases place with
  | reserved =>
    rw [Holds, field?_putHash, if_neg (pipelineKey_ne_reservationKey targetId).symm,
      if_neg (by simp), Holds]
  | entry other =>
    rw [Holds, field?_putHash]
    by_cases ho : other = targetId
    · rw [if_pos (by rw [ho]), if_pos (by rw [ho])]
    · have hkey : pipelineKey other ≠ pipelineKey targetId := by
        intro h
        exact ho (append_right_inj _ _ _ h)
      rw [if_neg hkey, if_neg (by simpa using ho), Holds]
  | record =>
    rw [Holds, get?_putHash, if_neg (recordKey_ne_pipelineKey text targetId), if_neg (by simp),
      Holds]

theorem holds_putHash_record (s : Store) (name : String) (fields : Dict String String)
    (text : String) (place : Place) :
    (s.putHash (PolicyRecord.keyStem ++ name) fields).Holds text place ↔
      if place = .record ∧ text = name then fields.isEmpty = false else s.Holds text place := by
  cases place with
  | reserved =>
    rw [Holds, field?_putHash, if_neg (recordKey_ne_reservationKey name).symm, if_neg (by simp),
      Holds]
  | entry targetId =>
    rw [Holds, field?_putHash, if_neg (recordKey_ne_pipelineKey name targetId).symm,
      if_neg (by simp), Holds]
  | record =>
    rw [Holds, get?_putHash]
    by_cases ht : text = name
    · subst ht
      cases fields.isEmpty <;> simp
    · have hkey : PolicyRecord.keyStem ++ text ≠ PolicyRecord.keyStem ++ name := by
        intro h
        exact ht (append_right_inj _ _ _ h)
      rw [if_neg hkey, if_neg (by simp [ht]), Holds]

theorem holds_erase_record (s : Store) (name text : String) (place : Place) :
    Holds (s.erase (PolicyRecord.keyStem ++ name)) text place ↔
      s.Holds text place ∧ ¬(place = .record ∧ text = name) := by
  have hempty : s.putHash (PolicyRecord.keyStem ++ name) Dict.empty =
      s.erase (PolicyRecord.keyStem ++ name) := rfl
  rw [← hempty, holds_putHash_record]
  by_cases h : place = .record ∧ text = name
  · rw [if_pos h]
    exact ⟨fun he => absurd he (by decide), fun he => absurd h he.2⟩
  · rw [if_neg h]
    exact ⟨fun he => ⟨he, h⟩, fun he => he.1⟩

/-! ### What the calls do -/

/-- A counter that has room counts on. -/
theorem increment_of_counts (s : Store) (key : String) (n : Nat) (h : s.Counts key n)
    (hroom : n < Number.maxWord) :
    s.increment key = .ok (n + 1, s.insert key (.scalar (Number.writeNatural (n + 1)))) := by
  have hmod : (n + 1) % (Number.maxWord + 1) = n + 1 := Nat.mod_eq_of_lt (by omega)
  rcases h with ⟨hle, hget | ⟨hget, hzero⟩⟩
  · simp only [increment, scalarAt, hget, bind, Except.bind, pure, Except.pure,
      Number.readNatural_writeNatural n hle, hmod]
  · subst hzero
    simp only [increment, scalarAt, hget, bind, Except.bind, pure, Except.pure, hmod]

theorem counts_insert (s : Store) (key : String) (n : Nat) (hle : n ≤ Number.maxWord) :
    Counts (s.insert key (.scalar (Number.writeNatural n))) key n := by
  refine ⟨hle, Or.inl ?_⟩
  rw [Dict.get?_insert, if_pos rfl]

theorem counts_congr (s t : Store) (key : String) (n : Nat) (h : s.get? key = t.get? key)
    (hs : s.Counts key n) : t.Counts key n := by
  rw [Counts, ← h]
  exact hs

/-- The store after an id has been taken. -/
def withNextId (s : Store) (n : Nat) (reserved : Dict String String) : Store :=
  Store.putHash (s.insert counterKey (.scalar (Number.writeNatural (n + 1)))) reservationKey
    (reserved.insert (Number.writeNatural (n + 1)) "")

/-- Taking an id gives the number after the counter, and reserves it. -/
theorem exec_nextId (s : Store) (n : Nat) (fields : Dict String String)
    (hcounts : s.Counts counterKey n) (hroom : n < Number.maxWord)
    (hres : s.hashAt reservationKey = .ok fields) :
    s.exec nextIdCall = (.ok (n + 1), s.withNextId n fields) := by
  have hother : hashAt (s.insert counterKey (.scalar (Number.writeNatural (n + 1))))
      reservationKey = .ok fields := by
    rw [← hres]
    refine hashAt_congr _ _ _ ?_
    rw [Dict.get?_insert, if_neg counterKey_ne_reservationKey.symm]
  simp only [exec, incrementReserving, hres, increment_of_counts s counterKey n hcounts hroom,
    mutate_setField _ _ _ _ _ hother]
  rfl

/-- Storing an entry makes its id one of the pipeline instead of a reserved one. -/
theorem exec_putStatic (s : Store) (targetId : String) (id : Nat) (entry : StaticEntry)
    (fields reserved : Dict String String) (hpipe : s.hashAt (pipelineKey targetId) = .ok fields)
    (hres : s.hashAt reservationKey = .ok reserved) :
    s.exec (putStaticCall targetId id entry) =
      (.ok (), (s.putHash (pipelineKey targetId)
        (fields.insert (Number.writeNatural id) entry.toText)).putHash reservationKey
          (reserved.erase (Number.writeNatural id))) := by
  rw [exec]
  refine applyBatch_of_mutateAll _ _ _ ?_
  rw [mutateAll_cons_ok _ _ _ _ (mutate_setField s _ _ _ fields hpipe)]
  have hother : (s.putHash (pipelineKey targetId)
      (fields.insert (Number.writeNatural id) entry.toText)).hashAt reservationKey =
      .ok reserved := by
    rw [hashAt_putHash, if_neg (pipelineKey_ne_reservationKey targetId).symm, hres]
  rw [release, mutateAll_cons_ok _ _ _ _ (mutate_deleteField _ _ _ reserved hother), mutateAll]

/-- Storing a record makes its id that of a record instead of a reserved one. -/
theorem exec_putDynamic (s : Store) (record : PolicyRecord) (fields reserved : Dict String String)
    (hrec : s.hashAt (PolicyRecord.storeKey record.id) = .ok fields)
    (hres : s.hashAt reservationKey = .ok reserved) :
    s.exec (.apply (recordChanges record)) =
      (.ok (), (s.putHash (PolicyRecord.storeKey record.id)
        (fields.insertAll record.toFields)).putHash reservationKey
          (reserved.erase (Number.writeNatural record.id))) := by
  rw [exec]
  refine applyBatch_of_mutateAll _ _ _ ?_
  rw [recordChanges, mutateAll_append_ok _ _ _ _
    (mutateAll_setFields s _ fields record.toFields (List.cons_ne_nil _ _) hrec)]
  have hother : (s.putHash (PolicyRecord.storeKey record.id)
      (fields.insertAll record.toFields)).hashAt reservationKey = .ok reserved := by
    rw [hashAt_putHash, PolicyRecord.storeKey, if_neg (recordKey_ne_reservationKey _).symm, hres]
  rw [release, mutateAll_cons_ok _ _ _ _ (mutate_deleteField _ _ _ reserved hother), mutateAll]

theorem exec_release (s : Store) (id : Nat) (reserved : Dict String String)
    (hres : s.hashAt reservationKey = .ok reserved) :
    s.exec (.apply [release id]) =
      (.ok (), s.putHash reservationKey (reserved.erase (Number.writeNatural id))) := by
  rw [exec, release]
  exact applyBatch_single _ _ _ (mutate_deleteField s _ _ reserved hres)

/-! ### The ledger stays in order -/

theorem hashAt_putHash_any (s : Store) (key other : String) (fields : Dict String String)
    (h : s.HashAt other) : (s.putHash key fields).HashAt other := by
  rw [HashAt, hashAt_putHash]
  by_cases ho : other = key
  · rw [if_pos ho]
    exact ⟨fields, rfl⟩
  · rw [if_neg ho]
    exact h

theorem hashAt_congr_any (s t : Store) (key : String) (h : s.get? key = t.get? key)
    (hs : s.HashAt key) : t.HashAt key := by
  rw [HashAt, ← hashAt_congr s t key h]
  exact hs

theorem get?_putHash_counter (s : Store) (key : String) (fields : Dict String String)
    (hne : key ≠ counterKey) : s.get? counterKey = (s.putHash key fields).get? counterKey := by
  rw [get?_putHash, if_neg hne.symm]

/-- Where nothing new is in use, the ledger stays in order. -/
theorem ledger_shrink (s t : Store) (n : Nat) (h : s.Ledger n) (hcounts : t.Counts counterKey n)
    (hres : t.HashAt reservationKey) (hpipe : ∀ targetId, t.HashAt (pipelineKey targetId))
    (hholds : ∀ text place, t.Holds text place → s.Holds text place) : t.Ledger n where
  counts := hcounts
  reservations := hres
  pipelines := hpipe
  bounded := fun text place ht => h.bounded text place (hholds text place ht)
  unique := fun text place other ht ho =>
    h.unique text place other (hholds text place ht) (hholds text other ho)

/-- An id that is reserved may be put into another place, if its reservation ends at once. -/
theorem ledger_move (s t : Store) (n : Nat) (text : String) (place : Place) (h : s.Ledger n)
    (hreserved : s.Holds text .reserved) (hcounts : t.Counts counterKey n)
    (hres : t.HashAt reservationKey) (hpipe : ∀ targetId, t.HashAt (pipelineKey targetId))
    (hholds : ∀ x p, t.Holds x p →
      (p = place ∧ x = text) ∨ (s.Holds x p ∧ ¬(p = .reserved ∧ x = text))) : t.Ledger n where
  counts := hcounts
  reservations := hres
  pipelines := hpipe
  bounded := by
    intro x p hx
    rcases hholds x p hx with ⟨-, rfl⟩ | ⟨hs, -⟩
    · exact h.bounded x .reserved hreserved
    · exact h.bounded x p hs
  unique := by
    -- An old holder of the moved id could only be its reservation, which has ended.
    have hold : ∀ p, s.Holds text p → p = .reserved := fun p hp =>
      h.unique text p .reserved hp hreserved
    intro x p q hp hq
    rcases hholds x p hp with ⟨rfl, rfl⟩ | ⟨hsp, hnp⟩
    · rcases hholds x q hq with ⟨rfl, -⟩ | ⟨hsq, hnq⟩
      · rfl
      · exact absurd ⟨hold q hsq, rfl⟩ hnq
    · rcases hholds x q hq with ⟨rfl, rfl⟩ | ⟨hsq, -⟩
      · exact absurd ⟨hold p hsp, rfl⟩ hnp
      · exact h.unique x p q hsp hsq

/-- Taking an id adds it to the reserved ones. -/
theorem holds_withNextId (s : Store) (n : Nat) (reserved : Dict String String)
    (hres : s.hashAt reservationKey = .ok reserved) (text : String) (place : Place) :
    (s.withNextId n reserved).Holds text place ↔
      (place = .reserved ∧ text = Number.writeNatural (n + 1)) ∨ s.Holds text place := by
  rw [withNextId, holds_putHash_reservations]
  have hinsert : Holds (s.insert counterKey (.scalar (Number.writeNatural (n + 1)))) text place ↔
      s.Holds text place :=
    holds_congr _ _ text place fun key hkey => by rw [Dict.get?_insert, if_neg hkey]
  cases place with
  | reserved =>
    rw [if_pos rfl, Dict.get?_insert, Holds, field?_of_hashAt s _ _ _ hres]
    by_cases ht : text = Number.writeNatural (n + 1) <;> simp [ht]
  | entry targetId => rw [if_neg (by simp), hinsert]; simp
  | record => rw [if_neg (by simp), hinsert]; simp

/-- Taking an id keeps the ledger in order: all ids in use are smaller. -/
theorem ledger_nextId (s : Store) (n : Nat) (reserved : Dict String String) (h : s.Ledger n)
    (hroom : n < Number.maxWord) (hres : s.hashAt reservationKey = .ok reserved) :
    (s.withNextId n reserved).Ledger (n + 1) := by
  -- The bound on the ids in use is what makes the new one stand nowhere yet.
  have hfresh : ∀ place, ¬ s.Holds (Number.writeNatural (n + 1)) place := by
    intro place hp
    rcases h.bounded _ place hp with ⟨id, hid, -, hle⟩
    have := Number.writeNatural_inj _ _ hid
    omega
  have hcounter : (s.withNextId n reserved).get? counterKey =
      some (.scalar (Number.writeNatural (n + 1))) := by
    rw [withNextId, get?_putHash, if_neg counterKey_ne_reservationKey, Dict.get?_insert,
      if_pos rfl]
  refine ⟨⟨by omega, Or.inl hcounter⟩, ?_, ?_, ?_, ?_⟩
  · exact ⟨_, by rw [withNextId, hashAt_putHash, if_pos rfl]⟩
  · intro targetId
    refine hashAt_putHash_any _ _ _ _ (hashAt_congr_any s _ _ ?_ (h.pipelines targetId))
    rw [Dict.get?_insert, if_neg (pipelineKey_ne_counterKey targetId)]
  · intro text place ht
    rcases (holds_withNextId s n reserved hres text place).mp ht with ⟨-, rfl⟩ | hs
    · exact ⟨n + 1, rfl, by omega, by omega⟩
    · rcases h.bounded text place hs with ⟨id, hid, hpos, hle⟩
      exact ⟨id, hid, hpos, by omega⟩
  · intro text p q hp hq
    rcases (holds_withNextId s n reserved hres text p).mp hp with ⟨rfl, rfl⟩ | hsp
    · rcases (holds_withNextId s n reserved hres _ q).mp hq with ⟨rfl, -⟩ | hsq
      · rfl
      · exact absurd hsq (hfresh q)
    · rcases (holds_withNextId s n reserved hres text q).mp hq with ⟨rfl, rfl⟩ | hsq
      · exact absurd hsp (hfresh p)
      · exact h.unique text p q hsp hsq

end Store

end StoragePolicy
