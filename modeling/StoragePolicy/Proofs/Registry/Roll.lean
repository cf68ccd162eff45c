import Mathlib.Data.Finset.Basic
import StoragePolicy.Proofs.Registry.InOrder
import StoragePolicy.Proofs.Registry.Labels
import StoragePolicy.Proofs.Registry.Requests

/-!
# The roll

What the registry keeps in one flat store of texts is, seen from outside, a roll: a finite map of
entries by target and id, a finite map of records by id, a set of reserved ids and a counter. Every
request is answered here from the roll alone, without keys, texts of numbers or texts of entries.

Only the order of lists still shows how entries are kept. The keys of the roll are therefore put in
the order in which the store goes through them: targets as texts, and in one pipeline the ids as
texts, in which `10` comes before `2`.

## Main definitions

* `EntryKey`: The keys of entries and their order.
* `Roll`: The content of a registry.
* `Roll.answer`: The answer to a request, and what becomes of the roll.
* `Request.Proper`: Requests that can be made: an entry is stored under the id it carries, numbers
  can be held, an object type has a name, and no patch names the id of an entry.
* `Request.serveAll`: The answers to one request after the other.

## Theorems

* `get?_filter`: What leaving out entries does to look-up.
* `sound_answer`: A sound roll stays sound.
* `entries_answer`, `records_answer`: No request changes what is kept for another target or id.
* `isStoreFailure_answer`: No answer blames the store.
-/

namespace StoragePolicy

open Registry

/-! ### Keys of entries -/

/-- The target of a pipeline and an id in it. -/
structure EntryKey where
  targetId : String
  id : Nat
  deriving Repr, DecidableEq

namespace EntryKey

/-- Targets come before ids, and both are compared as texts. -/
def Before (a b : EntryKey) : Prop :=
  a.targetId < b.targetId ∨
    a.targetId = b.targetId ∧ Number.writeNatural a.id < Number.writeNatural b.id

instance (a b : EntryKey) : Decidable (a.Before b) :=
  inferInstanceAs (Decidable (a.targetId < b.targetId ∨
    a.targetId = b.targetId ∧ Number.writeNatural a.id < Number.writeNatural b.id))

theorem before_trans (a b c : EntryKey) (h : a.Before b) (h' : b.Before c) : a.Before c := by
  rcases h with h | ⟨h, hid⟩
  · rcases h' with h' | ⟨h', -⟩
    · exact Or.inl (SortKey.trans h h')
    · exact Or.inl (h' ▸ h)
  · rcases h' with h' | ⟨h', hid'⟩
    · exact Or.inl (h ▸ h')
    · exact Or.inr ⟨h.trans h', SortKey.trans hid hid'⟩

/-- Different ids are written differently, so that keys which do not differ as texts are one. -/
theorem eq_of_not_before (a b : EntryKey) (h : ¬ a.Before b) (h' : ¬ b.Before a) : a = b := by
  rcases a with ⟨target, id⟩
  rcases b with ⟨target', id'⟩
  simp only [Before, not_or, not_and] at h h'
  have htarget : target = target' := SortKey.connected target target' h.1 h'.1
  have hid : id = id' := Number.writeNatural_inj id id'
    (SortKey.connected _ _ (h.2 htarget) (h'.2 htarget.symm))
  rw [htarget, hid]

end EntryKey

instance : SortKey EntryKey where
  lt := EntryKey.Before
  decLt := fun a b => inferInstanceAs (Decidable (a.Before b))
  decEq := inferInstance
  irrefl := fun a h => h.elim (SortKey.irrefl a.targetId) fun h => SortKey.irrefl _ h.2
  trans := fun {a b c} h h' => EntryKey.before_trans a b c h h'
  connected := EntryKey.eq_of_not_before

/-! ### Leaving out entries -/

namespace Dict

variable {κ ν : Type} [SortKey κ]

/-- The entries that fulfil a condition. -/
def filter (d : Dict κ ν) (keep : κ → ν → Bool) : Dict κ ν :=
  ⟨d.entries.filter fun e => keep e.1 e.2, d.ascending.filter _⟩

/-- What is found among the entries that fulfil a condition. -/
theorem get?_filter (d : Dict κ ν) (keep : κ → ν → Bool) (key : κ) :
    (d.filter keep).get? key = (d.get? key).filter (keep key) := by
  have hfound : ∀ value, (d.filter keep).get? key = some value ↔
      (d.get? key).filter (keep key) = some value := by
    intro value
    rw [← mem_entries_iff, Option.filter_eq_some_iff, ← mem_entries_iff]
    exact List.mem_filter
  exact Option.ext hfound

end Dict

/-! ### The roll -/

/-- The entry that a patch makes of an entry, as far as that is one. -/
def StaticEntry.patched? (e : StaticEntry) (patch : List (String × Json)) : Option StaticEntry :=
  ofMembers? (Json.mergeMembers e.jsonMembers patch)

/-- The content of a registry. There is no counter before the first id has been taken. -/
structure Roll where
  entries : Dict EntryKey StaticEntry := Dict.empty
  records : Dict Nat PolicyRecord := Dict.empty
  reserved : Finset Nat := ∅
  counter : Option Nat := none

namespace Roll

/-- Whether no id is in use. -/
def vacant (roll : Roll) : Bool :=
  roll.entries.isEmpty && roll.records.isEmpty && decide (roll.reserved = ∅)

/-- The counter is set back to zero if no id is in use. -/
def reset (roll : Roll) : Roll :=
  if roll.vacant then { roll with counter := roll.counter.map fun _ => 0 } else roll

/-- The entries of a target in execution order. Those of equal order stand in the order of keys. -/
def pipeline (roll : Roll) (targetId : String) : List StaticEntry :=
  inOrder StaticEntry.executionOrder
    ((roll.entries.entries.filter fun e => e.1.targetId = targetId).map Prod.snd)

/-- The entries of one target or of all, each with its target, in execution order. Those of equal
    order stand in the order of keys. -/
def listed (roll : Roll) : Option String → List (String × StaticEntry)
  | some targetId => (roll.pipeline targetId).map fun e => (targetId, e)
  | none => inOrder (fun e => e.2.executionOrder)
      (roll.entries.entries.map fun e => (e.1.targetId, e.2))

/-- The number after that of the counter, up to the largest that can be held. -/
def next (roll : Roll) : Nat := (roll.counter.getD 0 + 1) % (Number.maxWord + 1)

/-- The answer to a request, and what becomes of the roll. -/
def answer : (r : Request) → Roll → Except EngineError r.Answer × Roll
  | .nextId, roll => (.ok roll.next,
      { roll with counter := some roll.next, reserved := insert roll.next roll.reserved })
  | .releaseId id, roll => (.ok (), reset { roll with reserved := roll.reserved.erase id })
  | .resetIfVacant, roll => (.ok (roll.vacant && roll.counter.isSome), roll.reset)
  | .putStatic targetId id entry, roll => (.ok (),
      { roll with
        entries := roll.entries.insert ⟨targetId, id⟩ entry
        reserved := roll.reserved.erase id })
  | .getStatic targetId id, roll => (.ok (roll.entries.get? ⟨targetId, id⟩), roll)
  | .updateStatic targetId id patch, roll =>
    match roll.entries.get? ⟨targetId, id⟩ with
    | none => (.error (.unknownEntry targetId id), roll)
    | some entry =>
      match entry.patched? patch with
      | none => (.error .notAnEntry, roll)
      | some patched => (.ok patched,
          { roll with entries := roll.entries.insert ⟨targetId, id⟩ patched })
  | .deleteStatic targetId id, roll => (.ok (roll.entries.contains ⟨targetId, id⟩),
      reset { roll with entries := roll.entries.erase ⟨targetId, id⟩ })
  | .deleteMatching targetId filterName, roll =>
    (.ok (((roll.pipeline targetId).filter fun e => e.filterName = filterName).map
        StaticEntry.policyId),
      reset { roll with entries := roll.entries.filter fun key e =>
        !(key.targetId = targetId && e.filterName = filterName) })
  | .listStatic targetId, roll => (.ok (roll.listed targetId), roll)
  | .putDynamic record, roll => (.ok (),
      { roll with
        records := roll.records.insert record.id record
        reserved := roll.reserved.erase record.id })
  | .getDynamic id, roll => (.ok (roll.records.get? id), roll)
  | .setAlive id alive, roll => (.ok (roll.records.contains id),
      { roll with records := roll.records.adjust id fun record => record.marked alive })
  | .deleteDynamic id, roll => (.ok (roll.records.contains id),
      reset { roll with records := roll.records.erase id })
  | .listDynamic, roll => (.ok roll.records.values, roll)

end Roll

/-! ### Requests -/

namespace Request

/-- Requests that can be made: an entry is stored under the id it carries, numbers can be held, the
    object type of a record has a name, and no patch names the id of an entry. -/
def Proper : Request → Prop
  | .putStatic _ id entry => entry.policyId = id ∧ entry.Storable
  | .updateStatic _ _ patch => ∀ member ∈ patch, member.1 ≠ "policy_id"
  | .putDynamic record => record.Storable
  | _ => True

/-- Requests on an entry, and on the pipeline of a target as a whole. -/
def OnEntry (key : EntryKey) : Request → Prop
  | .putStatic targetId id _ | .updateStatic targetId id _ | .deleteStatic targetId id =>
    key = ⟨targetId, id⟩
  | .deleteMatching targetId _ => key.targetId = targetId
  | _ => False

/-- Requests on the record of an id. -/
def OnRecord (id : Nat) : Request → Prop
  | .putDynamic record => id = record.id
  | .setAlive other _ | .deleteDynamic other => id = other
  | _ => False

/-- A request together with the answer to it. -/
abbrev Answered : Type := (r : Request) × Except EngineError r.Answer

/-- The answers to one request after the other. -/
def serveAll {σ : Type} (answer : (r : Request) → σ → Except EngineError r.Answer × σ) (s : σ) :
    List Request → List Answered × σ
  | [] => ([], s)
  | r :: rest =>
    let (reply, s) := answer r s
    let (replies, s) := serveAll answer s rest
    (⟨r, reply⟩ :: replies, s)

end Request

namespace Roll

/-! ### Sound rolls -/

/-- Entries carry the ids under which they stand, and everything can be stored. -/
structure Sound (roll : Roll) : Prop where
  counter : ∀ n, roll.counter = some n → n ≤ Number.maxWord
  entries : ∀ key e, roll.entries.get? key = some e → e.policyId = key.id ∧ e.Storable
  records : ∀ id r, roll.records.get? id = some r → r.id = id ∧ r.Storable

theorem sound_empty : Sound {} where
  counter := fun _ h => nomatch h
  entries := fun _ _ h => nomatch h
  records := fun _ _ h => nomatch h

theorem entries_reset (roll : Roll) : roll.reset.entries = roll.entries := by
  rw [reset]
  split <;> rfl

theorem records_reset (roll : Roll) : roll.reset.records = roll.records := by
  rw [reset]
  split <;> rfl

theorem sound_reset (roll : Roll) (h : roll.Sound) : roll.reset.Sound := by
  refine ⟨fun n hn => ?_, ?_, ?_⟩
  · rw [reset] at hn
    split at hn
    · rcases Option.map_eq_some_iff.mp hn with ⟨m, -, rfl⟩
      exact Nat.zero_le _
    · exact h.counter n hn
  · rw [entries_reset]
    exact h.entries
  · rw [records_reset]
    exact h.records

theorem sound_entries (roll : Roll) (h : roll.Sound) (entries : Dict EntryKey StaticEntry)
    (reserved : Finset Nat)
    (hentries : ∀ key e, entries.get? key = some e →
      roll.entries.get? key = some e ∨ e.policyId = key.id ∧ e.Storable) :
    Sound { roll with entries, reserved } := by
  refine ⟨h.counter, fun key e he => ?_, h.records⟩
  exact (hentries key e he).elim (h.entries key e) id

theorem sound_insert_entry (roll : Roll) (h : roll.Sound) (key : EntryKey) (e : StaticEntry)
    (reserved : Finset Nat) (he : e.policyId = key.id ∧ e.Storable) :
    Sound { roll with entries := roll.entries.insert key e, reserved } := by
  refine sound_entries roll h _ _ fun other e' hget => ?_
  rw [Dict.get?_insert] at hget
  split at hget
  · rename_i hkey
    cases hget
    exact Or.inr (hkey ▸ he)
  · exact Or.inl hget

theorem sound_records (roll : Roll) (h : roll.Sound) (records : Dict Nat PolicyRecord)
    (reserved : Finset Nat)
    (hrecords : ∀ id r, records.get? id = some r →
      roll.records.get? id = some r ∨ r.id = id ∧ r.Storable) :
    Sound { roll with records, reserved } := by
  refine ⟨h.counter, h.entries, fun id r hr => ?_⟩
  exact (hrecords id r hr).elim (h.records id r) fun hnew => hnew

/-- A patch that does not name the id of an entry keeps it. -/
theorem patched?_eq_some (e : StaticEntry) (patch : List (String × Json))
    (hpatch : ∀ member ∈ patch, member.1 ≠ "policy_id") (patched : StaticEntry)
    (h : e.patched? patch = some patched) : patched.policyId = e.policyId ∧ patched.Storable := by
  refine ⟨StaticEntry.policyId_of_ofMembers? _ _ ?_ _ h, StaticEntry.storable_of_ofMembers? _ _ h⟩
  exact Json.find?_mergeMembers _ _ _ _ rfl fun other hmem => absurd rfl (hpatch _ hmem)

/-- A sound roll stays sound. -/
theorem sound_answer (r : Request) (roll : Roll) (hr : r.Proper) (h : roll.Sound) :
    (answer r roll).2.Sound := by
  cases r with
  | nextId =>
    refine ⟨fun n hn => ?_, h.entries, h.records⟩
    cases hn
    exact Nat.le_of_lt_succ (Nat.mod_lt _ (Nat.succ_pos _))
  | releaseId id => exact sound_reset _ ⟨h.counter, h.entries, h.records⟩
  | resetIfVacant => exact sound_reset _ h
  | putStatic targetId id entry => exact sound_insert_entry roll h _ _ _ hr
  | updateStatic targetId id patch =>
    rw [answer]
    split
    · exact h
    · rename_i entry hentry
      split
      · exact h
      · rename_i patched hpatched
        -- The patch does not change the id, which is the one that the entry stands under.
        have hkept := patched?_eq_some entry patch hr patched hpatched
        exact sound_insert_entry roll h _ _ _
          ⟨hkept.1.trans (h.entries _ _ hentry).1, hkept.2⟩
  | deleteStatic targetId id =>
    refine sound_reset _ (sound_entries roll h _ _ fun key e he => ?_)
    rw [Dict.get?_erase] at he
    split at he
    · exact nomatch he
    · exact Or.inl he
  | deleteMatching targetId filterName =>
    refine sound_reset _ (sound_entries roll h _ _ fun key e he => ?_)
    rw [Dict.get?_filter] at he
    exact Or.inl (Option.filter_eq_some_iff.mp he).1
  | putDynamic record =>
    refine sound_records roll h _ _ fun id r hget => ?_
    rw [Dict.get?_insert] at hget
    split at hget
    · rename_i hid
      cases hget
      exact Or.inr ⟨hid.symm, hr⟩
    · exact Or.inl hget
  | setAlive id alive =>
    refine sound_records roll h _ _ fun other r hget => ?_
    rw [Dict.get?_adjust] at hget
    split at hget
    · rename_i hid
      rcases Option.map_eq_some_iff.mp hget with ⟨old, hold, rfl⟩
      have hsound := h.records id old hold
      exact Or.inr ⟨hsound.1.trans hid.symm, old.storable_marked alive hsound.2⟩
    · exact Or.inl hget
  | deleteDynamic id =>
    refine sound_reset _ (sound_records roll h _ _ fun other r hget => ?_)
    rw [Dict.get?_erase] at hget
    split at hget
    · exact nomatch hget
    · exact Or.inl hget
  | getStatic targetId id => exact h
  | listStatic targetId => exact h
  | getDynamic id => exact h
  | listDynamic => exact h

/-! ### What requests leave alone -/

/-- No request changes what is kept for another target or id in the pipelines. -/
theorem entries_answer (r : Request) (roll : Roll) (key : EntryKey) (hr : ¬ r.OnEntry key) :
    (answer r roll).2.entries.get? key = roll.entries.get? key := by
  -- Besides a reset, which leaves the entries, four requests write to the pipelines, each under
  -- its own key.
  cases r with
  | putStatic targetId id entry => exact (Dict.get?_insert _ _ _ _).trans (if_neg hr)
  | updateStatic targetId id patch =>
    rw [answer]
    split
    · rfl
    · split
      · rfl
      · exact (Dict.get?_insert _ _ _ _).trans (if_neg hr)
  | deleteStatic targetId id =>
    rw [answer, entries_reset]
    exact (Dict.get?_erase _ _ _).trans (if_neg hr)
  | deleteMatching targetId filterName =>
    have htarget : ¬ key.targetId = targetId := hr
    rw [answer, entries_reset, Dict.get?_filter]
    cases roll.entries.get? key with
    | none => rfl
    | some e => simp [htarget]
  | nextId => rfl
  | releaseId id => rw [answer, entries_reset]
  | resetIfVacant => rw [answer, entries_reset]
  | getStatic targetId id => rfl
  | listStatic targetId => rfl
  | putDynamic record => rfl
  | getDynamic id => rfl
  | setAlive id alive => rfl
  | deleteDynamic id => rw [answer, entries_reset]
  | listDynamic => rfl

/-- No request changes the record of another id. -/
theorem records_answer (r : Request) (roll : Roll) (id : Nat) (hr : ¬ r.OnRecord id) :
    (answer r roll).2.records.get? id = roll.records.get? id := by
  cases r with
  | putDynamic record => exact (Dict.get?_insert _ _ _ _).trans (if_neg hr)
  | setAlive other alive => exact (Dict.get?_adjust _ _ _ _).trans (if_neg hr)
  | deleteDynamic other =>
    rw [answer, records_reset]
    exact (Dict.get?_erase _ _ _).trans (if_neg hr)
  | updateStatic targetId other patch =>
    rw [answer]
    split
    · rfl
    · split <;> rfl
  | nextId => rfl
  | releaseId other => rw [answer, records_reset]
  | resetIfVacant => rw [answer, records_reset]
  | putStatic targetId other entry => rfl
  | getStatic targetId other => rfl
  | deleteStatic targetId other => rw [answer, records_reset]
  | deleteMatching targetId filterName => rw [answer, records_reset]
  | listStatic targetId => rfl
  | getDynamic other => rfl
  | listDynamic => rfl

/-! ### Pipelines -/

theorem mem_pipeline_iff (roll : Roll) (targetId : String) (e : StaticEntry) :
    e ∈ roll.pipeline targetId ↔ ∃ id, roll.entries.get? ⟨targetId, id⟩ = some e := by
  rw [pipeline, (perm_inOrder _ _).mem_iff, List.mem_map]
  constructor
  · rintro ⟨⟨⟨target, id⟩, e⟩, hmem, rfl⟩
    rcases List.mem_filter.mp hmem with ⟨hentry, htarget⟩
    have htarget : target = targetId := by simpa using htarget
    subst htarget
    exact ⟨id, (Dict.mem_entries_iff _ _ _).mp hentry⟩
  · rintro ⟨id, he⟩
    refine ⟨(⟨targetId, id⟩, e), List.mem_filter.mpr ⟨?_, by simp⟩, rfl⟩
    exact (Dict.mem_entries_iff _ _ _).mpr he

/-- A pipeline is what is kept under the keys of its target. -/
theorem pipeline_congr (roll other : Roll) (targetId : String)
    (h : ∀ id, other.entries.get? ⟨targetId, id⟩ = roll.entries.get? ⟨targetId, id⟩) :
    other.pipeline targetId = roll.pipeline targetId := by
  have hfilter : other.entries.filter (fun key _ => key.targetId = targetId) =
      roll.entries.filter fun key _ => key.targetId = targetId := by
    refine Dict.ext_get? _ _ fun key => ?_
    rw [Dict.get?_filter, Dict.get?_filter]
    by_cases hkey : key.targetId = targetId
    · subst hkey
      rw [h key.id]
    · simp [hkey]
  have hentries := congrArg Dict.entries hfilter
  simp only [Dict.filter] at hentries
  rw [pipeline, pipeline, hentries]

/-- In a sound roll the entries of a filter are those under the ids that they carry. -/
theorem eraseAll_matching (roll : Roll) (h : roll.Sound) (targetId filterName : String) :
    (((roll.pipeline targetId).filter fun e => e.filterName = filterName).map
        StaticEntry.policyId).foldl (fun entries id => entries.erase ⟨targetId, id⟩) roll.entries =
      roll.entries.filter fun key e => !(key.targetId = targetId && e.filterName = filterName) := by
  refine Dict.ext_get? _ _ fun key => ?_
  rw [Dict.get?_eraseAll (EntryKey.mk targetId), Dict.get?_filter]
  cases hget : roll.entries.get? key with
  | none => simp
  | some e =>
    -- An entry carries the id under which it stands, so that to erase by id is to erase by
    -- filter.
    have hremoved : (∃ id ∈ ((roll.pipeline targetId).filter fun e => e.filterName = filterName).map
        StaticEntry.policyId, key = ⟨targetId, id⟩) ↔
        key.targetId = targetId ∧ e.filterName = filterName := by
      constructor
      · rintro ⟨id, hmem, rfl⟩
        rcases List.mem_map.mp hmem with ⟨other, hother, hid⟩
        rcases List.mem_filter.mp hother with ⟨hpipeline, hfilter⟩
        rcases (mem_pipeline_iff roll targetId other).mp hpipeline with ⟨standing, hstanding⟩
        have hsame : standing = id := (h.entries _ other hstanding).1.symm.trans hid
        rw [hsame, hget] at hstanding
        cases hstanding
        exact ⟨rfl, by simpa using hfilter⟩
      · rintro ⟨rfl, hfilter⟩
        refine ⟨key.id, List.mem_map.mpr ⟨e, List.mem_filter.mpr ⟨?_, by simpa using hfilter⟩,
          (h.entries key e hget).1⟩, rfl⟩
        exact (mem_pipeline_iff roll key.targetId e).mpr ⟨key.id, hget⟩
    by_cases hboth : key.targetId = targetId ∧ e.filterName = filterName
    · rw [if_pos (hremoved.mpr hboth)]
      simp [Option.filter, hboth]
    · rw [if_neg fun hmem => hboth (hremoved.mp hmem)]
      have hkept : (!(key.targetId = targetId && e.filterName = filterName)) = true := by
        simpa using not_and_or.mp hboth
      simp only [Option.filter, hkept, if_true]

/-- The entries of all targets, one target after the other, are all entries. -/
theorem flatMap_targets (roll : Roll) (targets : List String)
    (hsorted : targets.Pairwise fun a b => a < b)
    (htargets : ∀ key e, roll.entries.get? key = some e → key.targetId ∈ targets) :
    (targets.flatMap fun targetId => roll.entries.entries.filter fun e => e.1.targetId = targetId) =
      roll.entries.entries := by
  refine Dict.entries_eq_of_mem_iff _ _ ?_ roll.entries.ascending fun e => ?_
  · refine List.pairwise_flatMap.mpr ⟨fun targetId _ => roll.entries.ascending.filter _,
      hsorted.imp fun hlt a ha b hb => Or.inl ?_⟩
    have htarget := (List.mem_filter.mp ha).2
    have htarget' := (List.mem_filter.mp hb).2
    simp only [decide_eq_true_eq] at htarget htarget'
    rwa [htarget, htarget']
  · rw [List.mem_flatMap]
    constructor
    · rintro ⟨targetId, -, hmem⟩
      exact (List.mem_filter.mp hmem).1
    · intro hmem
      refine ⟨e.1.targetId, htargets e.1 e.2 ((Dict.mem_entries_iff _ _ _).mp hmem), ?_⟩
      exact List.mem_filter.mpr ⟨hmem, by simp⟩

/-- To list the pipelines of all targets and to put that in order is to list all entries. -/
theorem listed_targets (roll : Roll) (targets : List String)
    (hsorted : targets.Pairwise fun a b => a < b)
    (htargets : ∀ key e, roll.entries.get? key = some e → key.targetId ∈ targets) :
    inOrder (fun e => e.2.executionOrder)
        (targets.flatMap fun targetId => (roll.pipeline targetId).map fun e => (targetId, e)) =
      roll.listed none := by
  -- Each pipeline has been put in order already, which makes no difference.
  have hpart : ∀ targetId, (roll.pipeline targetId).map (fun e => (targetId, e)) =
      inOrder (fun e => e.2.executionOrder) ((roll.entries.entries.filter
        fun e => e.1.targetId = targetId).map fun e => (e.1.targetId, e.2)) := by
    intro targetId
    have hmap := map_inOrder (fun e : String × StaticEntry => e.2.executionOrder)
      (fun e => (targetId, e)) ((roll.entries.entries.filter
        fun e => e.1.targetId = targetId).map Prod.snd)
    refine hmap.trans (congrArg _ ?_)
    rw [List.map_map]
    refine List.map_congr_left fun e he => ?_
    have htarget : e.1.targetId = targetId := by simpa using (List.mem_filter.mp he).2
    rw [htarget]
    rfl
  simp only [hpart]
  rw [inOrder_flatMap, ← List.map_flatMap, flatMap_targets roll targets hsorted htargets]
  rfl

/-! ### Errors -/

/-- No answer blames the store. -/
theorem isStoreFailure_answer (r : Request) (roll : Roll) (e : EngineError)
    (h : (answer r roll).1 = .error e) : e.isStoreFailure = false := by
  cases r with
  | updateStatic targetId id patch =>
    rw [answer] at h
    split at h
    · cases h
      rfl
    · split at h
      · cases h
        rfl
      · exact nomatch h
  | _ => exact nomatch h

end Roll

end StoragePolicy
