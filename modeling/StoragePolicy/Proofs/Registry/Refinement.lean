import StoragePolicy.Proofs.Registry.InOrder
import StoragePolicy.Proofs.Registry.Roll
import StoragePolicy.Proofs.Registry.Scan
import StoragePolicy.Proofs.Registry.Vacancy

/-!
# The store of a registry shows a roll

The registry answers as the roll does that is to be seen in its store. For every kind of key it is
said once what putting a hash there makes of the roll; every request puts hashes under some keys,
and so what it makes of the roll is read off these few lemmas.

The calls about ids go by the beginnings of keys and by hashes that disappear when they are empty.
This is where `Populated` and the names of fields come in: a key of the registry exists if and only
if the roll has something for it.

## Main definitions

* `Store.Shows`: A store in which a roll is to be seen.
* `Registry.Agrees`: A program on a store ends as something on the roll.

## Theorems

* `shows_putEntry`, `shows_putRecord`, `shows_reservations` and their neighbours: What putting a
  hash makes of the roll.
* `agrees_reset`: The reset of the store is that of the roll.
* `on_pipeline`, `on_targets`: What is read to list entries.
* `agrees_program`: Every request agrees with the roll.
* `serveAll_eq_roll`: So does every sequence of them.
-/

namespace StoragePolicy

open Registry

namespace Store

/-- A store in which a roll is to be seen, and nothing else. Fields and keys are named by ids. -/
structure Shows (s : Store) (roll : Roll) : Prop where
  populated : s.Populated
  numbered : ∀ name place, s.Holds name place → ∃ id, name = Number.writeNatural id
  counter : s.get? counterKey = roll.counter.map fun n => .scalar (Number.writeNatural n)
  reserved : ∀ id, s.Holds (Number.writeNatural id) .reserved ↔ id ∈ roll.reserved
  entries : ∀ key, s.field? (pipelineKey key.targetId) (Number.writeNatural key.id) =
    (roll.entries.get? key).map StaticEntry.toText
  records : ∀ id, s.get? (PolicyRecord.storeKey id) =
    (roll.records.get? id).map fun r => .hash r.hash

theorem shows_empty : Shows Dict.empty {} where
  populated := populated_empty
  numbered := fun name place h => by cases place <;> exact nomatch h
  counter := rfl
  reserved := fun id => iff_of_false (fun h => nomatch h) (Finset.notMem_empty id)
  entries := fun _ => rfl
  records := fun _ => rfl

/-- Under a key other than that of the counter there is a hash or nothing. -/
theorem hashAt_of_populated (s : Store) (h : s.Populated) (key : String) (hkey : key ≠ counterKey) :
    s.HashAt key := by
  cases hget : s.get? key with
  | none => exact ⟨Dict.empty, by rw [hashAt, hget]⟩
  | some value =>
    rcases h key value hkey hget with ⟨-, fields, rfl, -⟩
    exact ⟨fields, by rw [hashAt, hget]⟩

section Shows

variable (s : Store) (roll : Roll) (h : s.Shows roll)

include h

/-! ### What changes make of the roll -/

theorem shows_counter (n : Nat) :
    Shows (s.insert counterKey (.scalar (Number.writeNatural n)))
      { roll with counter := some n } := by
  have hother : ∀ key, key ≠ counterKey →
      Dict.get? (s.insert counterKey (.scalar (Number.writeNatural n))) key = s.get? key := by
    intro key hkey
    rw [Dict.get?_insert, if_neg hkey]
  have hholds := fun name place => holds_congr _ _ name place hother
  refine ⟨populated_counter s h.populated _, fun name place hheld => ?_, ?_, fun id => ?_,
    fun key => ?_, fun id => ?_⟩
  · exact h.numbered name place ((hholds name place).mp hheld)
  · rw [Dict.get?_insert, if_pos rfl]
    rfl
  · rw [hholds]
    exact h.reserved id
  · rw [field?_congr _ _ _ _ (hother _ (pipelineKey_ne_counterKey key.targetId))]
    exact h.entries key
  · rw [PolicyRecord.storeKey, hother _ (recordKey_ne_counterKey _)]
    exact h.records id

theorem shows_reservations (fields : Dict String String) (reserved : Finset Nat)
    (hnumbered : ∀ name, (fields.get? name).isSome = true → ∃ id, name = Number.writeNatural id)
    (hfields : ∀ id, (fields.get? (Number.writeNatural id)).isSome = true ↔ id ∈ reserved) :
    (s.putHash reservationKey fields).Shows { roll with reserved } := by
  refine ⟨populated_putHash s h.populated _ own_reservationKey _, fun name place hheld => ?_, ?_,
    fun id => ?_, fun key => ?_, fun id => ?_⟩
  · rw [holds_putHash_reservations] at hheld
    split at hheld
    · exact hnumbered name hheld
    · exact h.numbered name place hheld
  · rw [← get?_putHash_counter s _ _ counterKey_ne_reservationKey.symm]
    exact h.counter
  · rw [holds_putHash_reservations, if_pos rfl]
    exact hfields id
  · rw [field?_putHash, if_neg (pipelineKey_ne_reservationKey _)]
    exact h.entries key
  · rw [get?_putHash, PolicyRecord.storeKey, if_neg (recordKey_ne_reservationKey _)]
    exact h.records id

/-- Ending a reservation takes the id out of the reserved ones. -/
theorem shows_release (fields : Dict String String) (hfields : s.hashAt reservationKey = .ok fields)
    (id : Nat) : (s.putHash reservationKey (fields.erase (Number.writeNatural id))).Shows
      { roll with reserved := roll.reserved.erase id } := by
  have hheld : ∀ name, (fields.get? name).isSome = true ↔ s.Holds name .reserved := by
    intro name
    rw [Holds, field?_of_hashAt s _ name fields hfields]
  refine shows_reservations s roll h _ _ (fun name hname => ?_) fun other => ?_
  · rw [Dict.get?_erase] at hname
    split at hname
    · cases hname
    · exact h.numbered name .reserved ((hheld name).mp hname)
  · rw [Dict.get?_erase, Finset.mem_erase]
    by_cases hid : other = id
    · simp [hid]
    · rw [if_neg fun heq => hid (Number.writeNatural_inj _ _ heq), hheld, h.reserved]
      exact ⟨fun hmem => ⟨hid, hmem⟩, And.right⟩

/-- Reserving an id puts it among the reserved ones. -/
theorem shows_reserve (fields : Dict String String) (hfields : s.hashAt reservationKey = .ok fields)
    (id : Nat) : (s.putHash reservationKey (fields.insert (Number.writeNatural id) "")).Shows
      { roll with reserved := insert id roll.reserved } := by
  have hheld : ∀ name, (fields.get? name).isSome = true ↔ s.Holds name .reserved := by
    intro name
    rw [Holds, field?_of_hashAt s _ name fields hfields]
  refine shows_reservations s roll h _ _ (fun name hname => ?_) fun other => ?_
  · rw [Dict.get?_insert] at hname
    split at hname
    · exact ⟨id, by assumption⟩
    · exact h.numbered name .reserved ((hheld name).mp hname)
  · rw [Dict.get?_insert, Finset.mem_insert]
    by_cases hid : other = id
    · simp [hid]
    · rw [if_neg fun heq => hid (Number.writeNatural_inj _ _ heq), hheld, h.reserved]
      exact ⟨Or.inr, fun hmem => hmem.resolve_left hid⟩

/-- Putting the hash of a pipeline changes the entries of its target. -/
theorem shows_pipeline (targetId : String) (fields : Dict String String)
    (entries : Dict EntryKey StaticEntry)
    (hnumbered : ∀ name, (fields.get? name).isSome = true → ∃ id, name = Number.writeNatural id)
    (hfields : ∀ id, fields.get? (Number.writeNatural id) =
      (entries.get? ⟨targetId, id⟩).map StaticEntry.toText)
    (hothers : ∀ key : EntryKey, key.targetId ≠ targetId →
      entries.get? key = roll.entries.get? key) :
    (s.putHash (pipelineKey targetId) fields).Shows { roll with entries } := by
  refine ⟨populated_putHash s h.populated _ (own_pipelineKey targetId) _,
    fun name place hheld => ?_, ?_, fun id => ?_, fun key => ?_, fun id => ?_⟩
  · rw [holds_putHash_pipeline] at hheld
    split at hheld
    · exact hnumbered name hheld
    · exact h.numbered name place hheld
  · rw [← get?_putHash_counter s _ _ (pipelineKey_ne_counterKey targetId)]
    exact h.counter
  · rw [holds_putHash_pipeline, if_neg (by simp)]
    exact h.reserved id
  · rw [field?_putHash]
    by_cases hkey : key.targetId = targetId
    · rw [if_pos (by rw [hkey]), hfields, ← hkey]
    · have hne : pipelineKey key.targetId ≠ pipelineKey targetId := fun heq =>
        hkey (append_right_inj _ _ _ heq)
      rw [if_neg hne, h.entries, hothers key hkey]
  · rw [get?_putHash, PolicyRecord.storeKey, if_neg (recordKey_ne_pipelineKey _ targetId)]
    exact h.records id

section Pipeline

variable (targetId : String) (fields : Dict String String)
  (hfields : s.hashAt (pipelineKey targetId) = .ok fields)

include hfields

theorem numbered_of_hashAt (name : String) (hname : (fields.get? name).isSome = true) :
    ∃ id, name = Number.writeNatural id := by
  refine h.numbered name (.entry targetId) ?_
  rw [Holds, field?_of_hashAt s _ name fields hfields]
  exact hname

/-- The fields of a pipeline are the texts of its entries. -/
theorem get?_of_hashAt (id : Nat) : fields.get? (Number.writeNatural id) =
    (roll.entries.get? ⟨targetId, id⟩).map StaticEntry.toText := by
  rw [← field?_of_hashAt s _ _ fields hfields]
  exact h.entries ⟨targetId, id⟩

theorem shows_putEntry (id : Nat) (e : StaticEntry) :
    (s.putHash (pipelineKey targetId) (fields.insert (Number.writeNatural id) e.toText)).Shows
      { roll with entries := roll.entries.insert ⟨targetId, id⟩ e } := by
  refine shows_pipeline s roll h targetId _ _ (fun name hname => ?_) (fun other => ?_)
    fun key hkey => ?_
  · rw [Dict.get?_insert] at hname
    split at hname
    · exact ⟨id, by assumption⟩
    · exact numbered_of_hashAt s roll h targetId fields hfields name hname
  · rw [Dict.get?_insert, Dict.get?_insert]
    by_cases hid : other = id
    · simp [hid]
    · rw [if_neg fun heq => hid (Number.writeNatural_inj _ _ heq), if_neg (by simpa using hid)]
      exact get?_of_hashAt s roll h targetId fields hfields other
  · rw [Dict.get?_insert, if_neg fun heq => hkey (by rw [heq])]

theorem shows_eraseEntry (id : Nat) :
    (s.putHash (pipelineKey targetId) (fields.erase (Number.writeNatural id))).Shows
      { roll with entries := roll.entries.erase ⟨targetId, id⟩ } := by
  refine shows_pipeline s roll h targetId _ _ (fun name hname => ?_) (fun other => ?_)
    fun key hkey => ?_
  · rw [Dict.get?_erase] at hname
    split at hname
    · exact nomatch hname
    · exact numbered_of_hashAt s roll h targetId fields hfields name hname
  · rw [Dict.get?_erase, Dict.get?_erase]
    by_cases hid : other = id
    · simp [hid]
    · rw [if_neg fun heq => hid (Number.writeNatural_inj _ _ heq), if_neg (by simpa using hid)]
      exact get?_of_hashAt s roll h targetId fields hfields other
  · rw [Dict.get?_erase, if_neg fun heq => hkey (by rw [heq])]

end Pipeline

/-- Putting the hash of a record, or of none, under the key of an id changes its record. -/
theorem shows_record (id : Nat) (fields : Dict String String) (records : Dict Nat PolicyRecord)
    (hfields : (if fields.isEmpty then none else some (StoreValue.hash fields)) =
      (records.get? id).map fun r => .hash r.hash)
    (hothers : ∀ other, other ≠ id → records.get? other = roll.records.get? other) :
    (s.putHash (PolicyRecord.storeKey id) fields).Shows { roll with records } := by
  refine ⟨populated_putHash s h.populated _ (own_storeKey id) _, fun name place hheld => ?_, ?_,
    fun other => ?_, fun key => ?_, fun other => ?_⟩
  · rw [PolicyRecord.storeKey, holds_putHash_record] at hheld
    split at hheld
    · rename_i hplace
      exact ⟨id, hplace.2⟩
    · exact h.numbered name place hheld
  · rw [PolicyRecord.storeKey, ← get?_putHash_counter s _ _ (recordKey_ne_counterKey _)]
    exact h.counter
  · rw [PolicyRecord.storeKey, holds_putHash_record, if_neg (by simp)]
    exact h.reserved other
  · rw [field?_putHash, PolicyRecord.storeKey, if_neg (recordKey_ne_pipelineKey _ _).symm]
    exact h.entries key
  · rw [get?_putHash]
    by_cases hid : other = id
    · rw [if_pos (by rw [hid]), hfields, hid]
    · rw [if_neg fun heq => hid (storeKey_inj _ _ heq), h.records, hothers other hid]

theorem shows_putRecord (id : Nat) (r : PolicyRecord) :
    (s.putHash (PolicyRecord.storeKey id) r.hash).Shows
      { roll with records := roll.records.insert id r } := by
  refine shows_record s roll h id r.hash _ ?_ fun other hother => ?_
  · rw [r.isEmpty_hash, Dict.get?_insert, if_pos rfl]
    rfl
  · rw [Dict.get?_insert, if_neg hother]

theorem shows_eraseRecord (id : Nat) :
    Shows (s.erase (PolicyRecord.storeKey id)) { roll with records := roll.records.erase id } := by
  -- Without fields a hash is taken away.
  refine shows_record s roll h id Dict.empty _ ?_ fun other hother => ?_
  · rw [Dict.get?_erase, if_pos rfl]
    rfl
  · rw [Dict.get?_erase, if_neg hother]

/-! ### The reset -/

/-- An id is in use if the roll has something for it. -/
theorem holds_iff_not_vacant : (∃ name place, s.Holds name place) ↔ roll.vacant = false := by
  have hvacant : roll.vacant = true ↔
      roll.entries = Dict.empty ∧ roll.records = Dict.empty ∧ roll.reserved = ∅ := by
    have hempty : ∀ {κ ν : Type} [SortKey κ] (d : Dict κ ν), d.isEmpty = true ↔ d = Dict.empty :=
      fun d => ⟨Dict.eq_empty_of_isEmpty d, fun heq => by rw [heq]; rfl⟩
    simp only [Roll.vacant, Bool.and_eq_true, decide_eq_true_eq, hempty, and_assoc]
  rw [← Bool.not_eq_true, hvacant]
  constructor
  · rintro ⟨name, place, hheld⟩ ⟨hentries, hrecords, hreserved⟩
    rcases h.numbered name place hheld with ⟨id, rfl⟩
    cases place with
    | reserved =>
      rw [h.reserved, hreserved] at hheld
      simp at hheld
    | entry targetId =>
      rw [Holds, h.entries ⟨targetId, id⟩, hentries] at hheld
      cases hheld
    | record =>
      rw [Holds, ← PolicyRecord.storeKey, h.records, hrecords] at hheld
      cases hheld
  · intro hsome
    -- If no place holds anything, each of the three parts of the roll is empty.
    by_contra hnone
    refine hsome ⟨Dict.ext_get? _ _ fun key => ?_, Dict.ext_get? _ _ fun id => ?_,
      Finset.eq_empty_of_forall_notMem fun id hid => ?_⟩
    · cases hget : roll.entries.get? key with
      | none => rfl
      | some e =>
        refine absurd ⟨Number.writeNatural key.id, .entry key.targetId, ?_⟩ hnone
        rw [Holds, h.entries, hget]
        rfl
    · cases hget : roll.records.get? id with
      | none => rfl
      | some r =>
        refine absurd ⟨Number.writeNatural id, .record, ?_⟩ hnone
        rw [Holds, ← PolicyRecord.storeKey, h.records, hget]
        rfl
    · exact hnone ⟨_, .reserved, (h.reserved id).mpr hid⟩

/-- The reset of the store is that of the roll. -/
theorem shows_reset :
    (s.resetIfVacant counterKey idStems).1 = .ok (roll.vacant && roll.counter.isSome) ∧
    (s.resetIfVacant counterKey idStems).2.Shows roll.reset := by
  -- The keys of which the reset takes notice are there exactly if an id is in use.
  have hany : (s.keys.any fun key => idStems.any fun stem =>
      stem.toList.isPrefixOf key.toList) = !roll.vacant := by
    rw [Bool.eq_iff_iff, Bool.not_eq_true', ← holds_iff_not_vacant s roll h]
    refine ⟨holds_of_any_idStems s (telling_of_populated s h.populated), ?_⟩
    rintro ⟨name, place, hheld⟩
    exact any_idStems_of_holds s name place hheld
  simp only [resetIfVacant, hany, Roll.reset]
  cases roll.vacant with
  | false => exact ⟨rfl, h⟩
  | true =>
    have hcounter := h.counter
    cases hroll : roll.counter with
    | none =>
      rw [hroll, Option.map_none] at hcounter
      simp only [Bool.not_true, Bool.false_eq_true, if_false, if_true, hcounter, Option.map_none]
      refine ⟨rfl, ?_⟩
      rw [← hroll]
      exact h
    | some n =>
      rw [hroll, Option.map_some] at hcounter
      simp only [Bool.not_true, Bool.false_eq_true, if_false, if_true, hcounter, Option.map_some]
      exact ⟨rfl, shows_counter s roll h 0⟩

/-! ### What is read -/

theorem filed_of_shows (hsound : roll.Sound) : s.Filed := by
  intro name value hget
  have hheld : s.Holds name .record := by
    rw [Holds, hget]
    rfl
  rcases h.numbered name .record hheld with ⟨id, rfl⟩
  have hrecord := h.records id
  rw [PolicyRecord.storeKey, hget] at hrecord
  rcases Option.map_eq_some_iff.mp hrecord.symm with ⟨r, hr, rfl⟩
  rcases hsound.records id r hr with ⟨hid, hstorable⟩
  exact ⟨r, hstorable, by rw [hid], rfl⟩

theorem record?_of_shows (hsound : roll.Sound) (id : Nat) :
    s.record? id = roll.records.get? id := by
  have hget := h.records id
  cases hr : roll.records.get? id with
  | none =>
    rw [hr] at hget
    exact recordAt_of_get?_eq_none s _ hget
  | some r =>
    rw [hr] at hget
    exact recordAt_of_get? s _ r (hsound.records id r hr).2 hget

theorem legible_of_shows (hsound : roll.Sound) : s.Legible := by
  intro targetId name text htext
  have hheld : s.Holds name (.entry targetId) := by
    rw [Holds, htext]
    rfl
  rcases h.numbered name _ hheld with ⟨id, rfl⟩
  rw [h.entries ⟨targetId, id⟩] at htext
  rcases Option.map_eq_some_iff.mp htext with ⟨e, he, rfl⟩
  exact ⟨e, (hsound.entries _ e he).2, rfl⟩

/-- The fields of a pipeline are the entries of its target, in the order of the keys. -/
theorem entries_of_hashAt (targetId : String) (fields : Dict String String)
    (hfields : s.hashAt (pipelineKey targetId) = .ok fields) :
    fields.entries = (roll.entries.entries.filter fun e => e.1.targetId = targetId).map
      fun e => (Number.writeNatural e.1.id, e.2.toText) := by
  refine Dict.entries_eq_of_mem_iff _ _ fields.ascending ?_ fun field => ?_
  · rw [List.pairwise_map]
    refine List.Pairwise.imp_of_mem ?_ (roll.entries.ascending.filter _)
    intro a b ha hb hbefore
    -- Of two keys with one target the ids decide.
    have htarget : a.1.targetId = b.1.targetId := by
      have hboth := And.intro (List.mem_filter.mp ha).2 (List.mem_filter.mp hb).2
      simp only [decide_eq_true_eq] at hboth
      exact hboth.1.trans hboth.2.symm
    refine Or.resolve_left hbefore (fun hlt => SortKey.irrefl a.1.targetId ?_) |>.2
    rwa [← htarget] at hlt
  · rcases field with ⟨name, text⟩
    rw [Dict.mem_entries_iff, List.mem_map]
    have hget := get?_of_hashAt s roll h targetId fields hfields
    constructor
    · intro htext
      rcases numbered_of_hashAt s roll h targetId fields hfields name (by rw [htext]; rfl) with
        ⟨id, rfl⟩
      rw [hget] at htext
      rcases Option.map_eq_some_iff.mp htext with ⟨e, he, rfl⟩
      refine ⟨(⟨targetId, id⟩, e), List.mem_filter.mpr ⟨?_, by simp⟩, rfl⟩
      exact (Dict.mem_entries_iff _ _ _).mpr he
    · rintro ⟨⟨⟨target, id⟩, e⟩, hmem, hfield⟩
      cases hfield
      rcases List.mem_filter.mp hmem with ⟨hentry, htarget⟩
      have htarget : target = targetId := by simpa using htarget
      subst htarget
      rw [hget, (Dict.mem_entries_iff _ _ _).mp hentry]
      rfl

end Shows

end Store

/-! ### Programs that agree with the roll -/

namespace Registry

/-- Texts that begin alike are in the order of what comes after. -/
theorem lt_of_append_lt (stem a b : String) (h : stem ++ a < stem ++ b) : a < b := by
  have hchars : ∀ stem a b : List Char, stem ++ a < stem ++ b → a < b := by
    intro stem a b h
    induction stem with
    | nil => exact h
    | cons c rest ih =>
      rw [List.cons_append, List.cons_append, List.cons_lt_cons_iff] at h
      rcases h with h | ⟨-, h⟩
      · exact absurd h (Char.lt_irrefl c)
      · exact ih h
  have hlists : (stem ++ a).toList < (stem ++ b).toList := h
  rw [String.toList_append, String.toList_append] at hlists
  exact hchars _ _ _ hlists

/-- A program on a store ends as something on the roll that the store shows: with the same value,
    and the store shows what has become of the roll. -/
def Agrees {α : Type} (p : Registry α) (s : Store) (outcome : Except EngineError α × Roll) : Prop :=
  (on p s).1 = outcome.1 ∧ (on p s).2.Shows outcome.2

section Agrees

variable {α β : Type}

theorem agrees_of_on (p : Registry α) (s t : Store) (result : Except EngineError α) (roll : Roll)
    (hon : on p s = (result, t)) (ht : t.Shows roll) : Agrees p s (result, roll) := by
  rw [Agrees, hon]
  exact ⟨rfl, ht⟩

theorem agrees_bind (p : Registry α) (f : α → Registry β) (s : Store) (a : α) (roll : Roll)
    (outcome : Except EngineError β × Roll) (hp : Agrees p s (.ok a, roll))
    (hf : ∀ t : Store, t.Shows roll → Agrees (f a) t outcome) : Agrees (p >>= f) s outcome := by
  rw [Agrees, on_bind_ok p f s (on p s).2 a (Prod.ext hp.1 rfl)]
  exact hf _ hp.2

theorem agrees_discard (p : Registry α) (s : Store) (a : α) (roll : Roll)
    (hp : Agrees p s (.ok a, roll)) : Agrees (discard p) s (.ok (), roll) := by
  rw [Agrees, on_discard, hp.1]
  exact ⟨rfl, hp.2⟩

theorem agrees_ask (c : Store.Call) (s t : Store) (a : c.Answer) (roll : Roll)
    (hexec : s.exec c = (.ok a, t)) (ht : t.Shows roll) : Agrees (ask c) s (.ok a, roll) := by
  rw [Agrees, on_ask, hexec]
  exact ⟨rfl, ht⟩

theorem agrees_change (m : Mutation) (s t : Store) (roll : Roll) (hm : s.mutate m = .ok t)
    (ht : t.Shows roll) : Agrees (change m) s (.ok (), roll) :=
  agrees_of_on _ s t _ roll (on_change m s t hm) ht

end Agrees

section Shows

variable (s : Store) (roll : Roll) (h : s.Shows roll)

include h

/-- The reset of the store is that of the roll. -/
theorem agrees_reset :
    Agrees resetIfVacant s (.ok (roll.vacant && roll.counter.isSome), roll.reset) :=
  agrees_ask resetCall s _ _ _ (Prod.ext (Store.shows_reset s roll h).1 rfl)
    (Store.shows_reset s roll h).2

/-- The end of a removal. -/
theorem agrees_reset_then {α : Type} (a : α) :
    Agrees (do discard resetIfVacant; pure a) s (.ok a, roll.reset) := by
  refine agrees_bind _ _ s () roll.reset _ (agrees_discard _ s _ _ (agrees_reset s roll h)) ?_
  exact fun t ht => agrees_of_on _ t t _ _ (on_pure a t) ht

/-! ### Ids -/

theorem increment_of_shows (hsound : roll.Sound) : s.increment counterKey =
    .ok (roll.next, s.insert counterKey (.scalar (Number.writeNatural roll.next))) := by
  have hcounter := h.counter
  simp only [Store.increment, Store.scalarAt, Roll.next]
  cases hroll : roll.counter with
  | none =>
    rw [hroll, Option.map_none] at hcounter
    rw [hcounter]
    rfl
  | some n =>
    rw [hroll, Option.map_some] at hcounter
    simp only [hcounter, bind, Except.bind, pure, Except.pure, Option.getD_some,
      Number.readNatural_writeNatural n (hsound.counter n hroll)]

theorem agrees_nextId (hsound : roll.Sound) : Agrees nextId s (Roll.answer .nextId roll) := by
  rcases Store.hashAt_of_populated s h.populated _ counterKey_ne_reservationKey.symm with
    ⟨fields, hfields⟩
  have hcounted := Store.shows_counter s roll h roll.next
  -- The reservations are as they were before the counter was set.
  have hother : Store.hashAt (s.insert counterKey (.scalar (Number.writeNatural roll.next)))
      reservationKey = .ok fields := by
    rw [← hfields]
    refine Store.hashAt_congr _ _ _ ?_
    rw [Dict.get?_insert, if_neg counterKey_ne_reservationKey.symm]
  refine agrees_ask nextIdCall s _ _ _ ?_ (Store.shows_reserve _ _ hcounted fields hother roll.next)
  simp only [Store.exec, Store.incrementReserving, hfields, increment_of_shows s roll h hsound,
    Store.mutate_setField _ _ _ _ _ hother]
  rfl

theorem agrees_releaseId (id : Nat) :
    Agrees (releaseId id) s (Roll.answer (.releaseId id) roll) := by
  rcases Store.hashAt_of_populated s h.populated _ counterKey_ne_reservationKey.symm with
    ⟨fields, hfields⟩
  have hrelease := agrees_change (release id) s _ _
    (Store.mutate_deleteField s reservationKey _ fields hfields)
    (Store.shows_release s roll h fields hfields id)
  refine agrees_bind _ _ s () _ _ hrelease fun t ht => ?_
  exact agrees_discard _ t _ _ (agrees_reset t _ ht)

/-! ### Single entries -/

theorem hashAt_pipeline (targetId : String) : s.HashAt (pipelineKey targetId) :=
  Store.hashAt_of_populated s h.populated _ (pipelineKey_ne_counterKey targetId)

theorem agrees_putStatic (targetId : String) (id : Nat) (e : StaticEntry) :
    Agrees (putStatic targetId id e) s (Roll.answer (.putStatic targetId id e) roll) := by
  rcases hashAt_pipeline s roll h targetId with ⟨fields, hfields⟩
  rcases Store.hashAt_of_populated s h.populated _ counterKey_ne_reservationKey.symm with
    ⟨reserved, hreserved⟩
  have hput := Store.shows_putEntry s roll h targetId fields hfields id e
  refine agrees_ask (putStaticCall targetId id e) s _ _ _
    (Store.exec_putStatic s targetId id e fields reserved hfields hreserved)
    (Store.shows_release _ _ hput reserved ?_ id)
  rw [Store.hashAt_putHash, if_neg (pipelineKey_ne_reservationKey targetId).symm, hreserved]

/-- The field of an id is the text of its entry. -/
theorem on_getField (targetId : String) (id : Nat) :
    on (ask (.getField (pipelineKey targetId) (Number.writeNatural id))) s =
      (.ok ((roll.entries.get? ⟨targetId, id⟩).map StaticEntry.toText), s) := by
  rcases hashAt_pipeline s roll h targetId with ⟨fields, hfields⟩
  rw [← Store.get?_of_hashAt s roll h targetId fields hfields id]
  exact on_ask_getField s _ (Number.writeNatural id) fields hfields

theorem agrees_getStatic (hsound : roll.Sound) (targetId : String) (id : Nat) :
    Agrees (getStatic targetId id) s (Roll.answer (.getStatic targetId id) roll) := by
  refine agrees_of_on _ s s _ _ ?_ h
  refine (on_bind_ok _ _ s s _ (on_getField s roll h targetId id)).trans ?_
  rw [on_ofExcept]
  cases he : roll.entries.get? ⟨targetId, id⟩ with
  | none => rfl
  | some e =>
    have hread := StaticEntry.ofText?_toText e (hsound.entries _ e he).2
    simp only [Option.map_some, Option.mapM_some, readEntry, hread]
    rfl

theorem agrees_updateStatic (hsound : roll.Sound) (targetId : String) (id : Nat)
    (patch : List (String × Json)) :
    Agrees (updateStatic targetId id patch) s
      (Roll.answer (.updateStatic targetId id patch) roll) := by
  rcases hashAt_pipeline s roll h targetId with ⟨fields, hfields⟩
  unfold Agrees
  rw [on_updateStatic targetId id patch s fields hfields,
    Store.get?_of_hashAt s roll h targetId fields hfields id, Roll.answer]
  cases he : roll.entries.get? ⟨targetId, id⟩ with
  | none => exact ⟨rfl, h⟩
  | some e =>
    simp only [Option.map_some, patchedEntry_eq _ e (hsound.entries _ e he).2 patch,
      StaticEntry.patched?]
    cases StaticEntry.ofMembers? (Json.mergeMembers e.jsonMembers patch) with
    | none => exact ⟨rfl, h⟩
    | some patched => exact ⟨rfl, Store.shows_putEntry s roll h targetId fields hfields id patched⟩

theorem agrees_deleteStatic (targetId : String) (id : Nat) :
    Agrees (deleteStatic targetId id) s (Roll.answer (.deleteStatic targetId id) roll) := by
  have hfield := agrees_of_on _ s s _ roll (on_getField s roll h targetId id) h
  refine agrees_bind _ _ s _ roll _ hfield fun t ht => ?_
  simp only [Option.isSome_map, Roll.answer, Dict.contains]
  cases he : roll.entries.get? ⟨targetId, id⟩ with
  | none =>
    -- Nothing is deleted from the store, nor from the roll.
    rw [Dict.erase_of_get?_eq_none _ _ he]
    exact agrees_reset_then t roll ht false
  | some e =>
    rcases hashAt_pipeline t roll ht targetId with ⟨fields, hfields⟩
    refine agrees_bind _ _ t () _ _ (agrees_change _ t _ _
      (Store.mutate_deleteField t (pipelineKey targetId) _ fields hfields)
      (Store.shows_eraseEntry t roll ht targetId fields hfields id)) fun u hu => ?_
    exact agrees_reset_then u _ hu true

/-! ### Pipelines -/

/-- The entries of a target are read in execution order. -/
theorem on_pipeline (hsound : roll.Sound) (targetId : String) :
    on (entriesOf targetId) s = (.ok (roll.pipeline targetId), s) := by
  rcases hashAt_pipeline s roll h targetId with ⟨fields, hfields⟩
  rcases on_entriesOf s (Store.legible_of_shows s roll h hsound) targetId fields hfields with
    ⟨entries, hread, hon⟩
  have hvalues : fields.values = ((roll.entries.entries.filter fun e => e.1.targetId = targetId).map
      Prod.snd).map StaticEntry.toText := by
    rw [Dict.values, Store.entries_of_hashAt s roll h targetId fields hfields, List.map_map,
      List.map_map]
    rfl
  rw [hvalues] at hread
  rw [hon, Roll.pipeline, Store.eq_of_texts _ (fun e he => ?_) entries hread]
  rcases List.mem_map.mp he with ⟨⟨key, e⟩, hmem, rfl⟩
  exact (hsound.entries key e ((Dict.mem_entries_iff _ _ _).mp (List.mem_filter.mp hmem).1)).2

theorem agrees_deleteFields (targetId : String) (ids : List Nat) :
    Agrees (deleteFields (pipelineKey targetId) ids) s (.ok (), { roll with
      entries := ids.foldl (fun entries id => entries.erase ⟨targetId, id⟩) roll.entries }) := by
  induction ids generalizing s roll with
  | nil => exact agrees_of_on _ s s _ _ (on_pure () s) h
  | cons id rest ih =>
    rcases hashAt_pipeline s roll h targetId with ⟨fields, hfields⟩
    refine agrees_bind _ _ s () _ _ (agrees_change _ s _ _
      (Store.mutate_deleteField s (pipelineKey targetId) _ fields hfields)
      (Store.shows_eraseEntry s roll h targetId fields hfields id)) fun t ht => ?_
    exact ih t _ ht

/-- To take out the entries of a filter by the ids they carry is to take them all out. -/
theorem agrees_deleteMatching (hsound : roll.Sound) (targetId filterName : String) :
    Agrees (deleteMatching targetId filterName) s
      (Roll.answer (.deleteMatching targetId filterName) roll) := by
  have hpipeline := agrees_of_on _ s s _ roll (on_pipeline s roll h hsound targetId) h
  refine agrees_bind _ _ s _ roll _ hpipeline fun t ht => ?_
  refine agrees_bind _ _ t () _ _ (agrees_deleteFields t roll ht targetId _) fun u hu => ?_
  rw [Roll.eraseAll_matching roll hsound] at hu
  exact agrees_reset_then u _ hu _

/-! ### Lists of entries -/

theorem on_entriesOfAll (hsound : roll.Sound) (targets : List String) :
    on (entriesOfAll targets) s = (.ok (targets.flatMap fun targetId =>
      (roll.pipeline targetId).map fun e => (targetId, e)), s) := by
  induction targets with
  | nil => rfl
  | cons targetId rest ih =>
    rw [entriesOfAll, on_bind_ok _ _ s s _ (on_pipeline s roll h hsound targetId),
      on_bind_ok _ _ s s _ ih]
    rfl

/-- The targets whose pipelines are there, in the order of their keys. -/
theorem on_targets : ∃ keys : List String, on (ask (.keys pipelineStem)) s = (.ok keys, s) ∧
    (keys.map (dropStem pipelineStem)).Pairwise (fun a b => a < b) ∧
    ∀ key e, roll.entries.get? key = some e → key.targetId ∈ keys.map (dropStem pipelineStem) := by
  refine ⟨s.keysUnder pipelineStem, ?_, ?_, fun key e he => ?_⟩
  · rw [← Store.scanKeys_eq_keysUnder]
    rfl
  -- All keys begin with the same stem, so that dropping it keeps their order.
  · rw [List.pairwise_map]
    have hascending : (s.keysUnder pipelineStem).Pairwise fun a b => a < b :=
      (List.pairwise_map.mpr s.ascending).filter _
    refine hascending.imp_of_mem ?_
    intro a b ha hb hlt
    rcases (Store.mem_keysUnder_iff s _ a).mp ha with ⟨target, rfl, -⟩
    rcases (Store.mem_keysUnder_iff s _ b).mp hb with ⟨target', rfl, -⟩
    rw [Store.dropStem_append, Store.dropStem_append]
    exact lt_of_append_lt pipelineStem target target' hlt
  · rw [List.mem_map]
    refine ⟨pipelineKey key.targetId, (Store.mem_keysUnder_iff s _ _).mpr ⟨_, rfl, ?_⟩,
      Store.dropStem_append _ _⟩
    have hfield := h.entries key
    rw [he] at hfield
    exact Store.isSome_get?_of_field? s _ _ (by rw [hfield]; rfl)

theorem agrees_listStatic (hsound : roll.Sound) (targetId : Option String) :
    Agrees (listStatic targetId) s (Roll.answer (.listStatic targetId) roll) := by
  have hlist : ∀ targets : List String, on (do
      let listed ← entriesOfAll targets
      return inOrder (fun e => e.2.executionOrder) listed :
        Registry (List (String × StaticEntry))) s =
      (.ok (inOrder (fun e => e.2.executionOrder) (targets.flatMap fun targetId =>
        (roll.pipeline targetId).map fun e => (targetId, e))), s) := fun targets =>
    -- For one target the pipeline is in order as it stands. For all of them the pipelines are put
    -- in order together.
    on_bind_ok _ _ s s _ (on_entriesOfAll s roll h hsound targets)
  have hlisted : on (listStatic targetId) s = (.ok (roll.listed targetId), s) := by
    cases targetId with
    | some targetId =>
      have hsorted : ((roll.pipeline targetId).map fun e => (targetId, e)).Pairwise
          fun a b => a.2.executionOrder ≤ b.2.executionOrder :=
        List.pairwise_map.mpr (pairwise_inOrder StaticEntry.executionOrder _)
      refine (hlist [targetId]).trans ?_
      rw [List.flatMap_singleton, inOrder_of_pairwise _ _ hsorted]
      rfl
    | none =>
      rcases on_targets s roll h with ⟨keys, hkeys, hsorted, hmem⟩
      refine (on_bind_ok _ _ s s _ hkeys).trans ((hlist _).trans ?_)
      rw [Roll.listed_targets roll _ hsorted hmem]
  exact agrees_of_on _ s s _ roll hlisted h

/-! ### Records -/

theorem agrees_putDynamic (r : PolicyRecord) :
    Agrees (putDynamic r) s (Roll.answer (.putDynamic r) roll) := by
  rcases Store.hashAt_of_populated s h.populated _ counterKey_ne_reservationKey.symm with
    ⟨reserved, hreserved⟩
  -- The fields of a record that stands there already all make way.
  have hfields : ∃ fields, s.hashAt (PolicyRecord.storeKey r.id) = .ok fields ∧
      fields.insertAll r.toFields = r.hash := by
    have hget := h.records r.id
    cases hold : roll.records.get? r.id with
    | none =>
      rw [hold] at hget
      exact ⟨Dict.empty, by rw [Store.hashAt, hget]; rfl, rfl⟩
    | some old =>
      rw [hold] at hget
      exact ⟨old.hash, by rw [Store.hashAt, hget]; rfl, r.insertAll_hash old⟩
  rcases hfields with ⟨fields, hfields, hall⟩
  have hexec := Store.exec_putDynamic s r fields reserved hfields hreserved
  rw [hall] at hexec
  refine agrees_ask _ s _ _ _ hexec
    (Store.shows_release _ _ (Store.shows_putRecord s roll h r.id r) reserved ?_ r.id)
  rw [Store.hashAt_putHash, PolicyRecord.storeKey, if_neg (recordKey_ne_reservationKey _).symm,
    hreserved]

theorem agrees_getDynamic (hsound : roll.Sound) (id : Nat) :
    Agrees (getDynamic id) s (Roll.answer (.getDynamic id) roll) := by
  refine agrees_of_on _ s s _ roll ?_ h
  rw [on_getDynamic s (Store.filed_of_shows s roll h hsound) id,
    Store.record?_of_shows s roll h hsound id]
  rfl

theorem agrees_setAlive (hsound : roll.Sound) (id : Nat) (alive : Bool) :
    Agrees (setAlive id alive) s (Roll.answer (.setAlive id alive) roll) := by
  have hhash := Store.hashAt_storeKey s (Store.filed_of_shows s roll h hsound) id
  rw [Store.record?_of_shows s roll h hsound id] at hhash
  have hon : on (setAlive id alive) s = (Except.mapError .store (s.updateField
      (PolicyRecord.storeKey id) "alive" (PolicyRecord.flagText alive)).1, (s.updateField
      (PolicyRecord.storeKey id) "alive" (PolicyRecord.flagText alive)).2) := rfl
  unfold Agrees
  rw [hon, Store.updateField, hhash, Roll.answer, Dict.adjust, Dict.contains]
  cases roll.records.get? id with
  | none => exact ⟨rfl, h⟩
  | some r =>
    simp only [Option.map_some, Option.getD_some, r.contains_hash_alive, if_true,
      r.hash_insert_alive]
    exact ⟨rfl, Store.shows_putRecord s roll h id (r.marked alive)⟩

theorem agrees_deleteDynamic (id : Nat) :
    Agrees (deleteDynamic id) s (Roll.answer (.deleteDynamic id) roll) := by
  have hcontains : on (ask (.contains (PolicyRecord.storeKey id))) s =
      (.ok (roll.records.contains id), s) := by
    refine on_ask_ok (.contains (PolicyRecord.storeKey id)) s _ (congrArg Except.ok ?_)
    rw [Dict.contains, Dict.contains, h.records, Option.isSome_map]
  have hfound := agrees_of_on _ s s _ roll hcontains h
  rw [Roll.answer]
  cases hr : roll.records.get? id with
  | none =>
    have hnone : roll.records.contains id = false := by rw [Dict.contains, hr]; rfl
    rw [hnone] at hfound
    rw [hnone, Dict.erase_of_get?_eq_none _ _ hr]
    exact agrees_bind _ _ s false roll _ hfound fun t ht => agrees_reset_then t roll ht false
  | some r =>
    have hsome : roll.records.contains id = true := by rw [Dict.contains, hr]; rfl
    rw [hsome] at hfound
    rw [hsome]
    refine agrees_bind _ _ s true roll _ hfound fun t ht => ?_
    refine agrees_bind _ _ t () _ _ (agrees_change (.delete (PolicyRecord.storeKey id)) t _ _ rfl
      (Store.shows_eraseRecord t roll ht id)) fun u hu => ?_
    exact agrees_reset_then u _ hu true

/-- Of two lists in ascending order of ids with the same records, one is the other. -/
theorem agrees_listDynamic (hsound : roll.Sound) :
    Agrees listDynamic s (Roll.answer .listDynamic roll) := by
  rcases on_scanDynamic s (Store.filed_of_shows s roll h hsound) with
    ⟨records, hscan, hascending, hrecords⟩
  -- Both lists ascend by ids and hold the same records.
  have hentries : records.map (fun r => (r.id, r)) = roll.records.entries := by
    refine Dict.entries_eq_of_mem_iff _ _ ?_ roll.records.ascending fun e => ?_
    · exact List.pairwise_map.mpr (List.pairwise_map.mp hascending)
    · rcases e with ⟨id, r⟩
      rw [Dict.mem_entries_iff, List.mem_map]
      constructor
      · rintro ⟨r', hr', heq⟩
        cases heq
        rw [← Store.record?_of_shows s roll h hsound]
        exact (hrecords _).mp hr'
      · intro hr
        have hid := (hsound.records id r hr).1
        subst hid
        refine ⟨r, (hrecords r).mpr ?_, rfl⟩
        rw [Store.record?_of_shows s roll h hsound, hr]
  refine agrees_of_on _ s s _ roll ((on_bind_ok _ _ s s _ hscan).trans ?_) h
  rw [on_pure, Dict.values, ← hentries, List.map_map]
  exact congrArg (fun rs => (Except.ok rs, s)) (List.map_id _).symm

/-! ### All requests -/

/-- Every request agrees with the roll. -/
theorem agrees_program (hsound : roll.Sound) (r : Request) :
    Agrees r.program s (Roll.answer r roll) := by
  cases r with
  | nextId => exact agrees_nextId s roll h hsound
  | releaseId id => exact agrees_releaseId s roll h id
  | resetIfVacant => exact agrees_reset s roll h
  | putStatic targetId id entry => exact agrees_putStatic s roll h targetId id entry
  | getStatic targetId id => exact agrees_getStatic s roll h hsound targetId id
  | updateStatic targetId id patch => exact agrees_updateStatic s roll h hsound targetId id patch
  | deleteStatic targetId id => exact agrees_deleteStatic s roll h targetId id
  | deleteMatching targetId filterName =>
    exact agrees_deleteMatching s roll h hsound targetId filterName
  | listStatic targetId => exact agrees_listStatic s roll h hsound targetId
  | putDynamic record => exact agrees_putDynamic s roll h record
  | getDynamic id => exact agrees_getDynamic s roll h hsound id
  | setAlive id alive => exact agrees_setAlive s roll h hsound id alive
  | deleteDynamic id => exact agrees_deleteDynamic s roll h id
  | listDynamic => exact agrees_listDynamic s roll h hsound

end Shows

/-! ### Sequences of requests -/

/-- What a store without failures answers to a request, and what becomes of the store. -/
def serve (r : Request) (s : Store) : Except EngineError r.Answer × Store := on r.program s

/-- What is read of a store is what is to be seen on its roll. -/
theorem serve_eq (s : Store) (roll : Roll) (h : s.Shows roll) (hsound : roll.Sound) (r : Request) :
    (serve r s).1 = (Roll.answer r roll).1 := (agrees_program s roll h hsound r).1

/-- Every sequence of requests agrees with the roll. -/
theorem agrees_serveAll (s : Store) (roll : Roll) (h : s.Shows roll) (hsound : roll.Sound)
    (requests : List Request) (hproper : ∀ r ∈ requests, r.Proper) :
    (Request.serveAll serve s requests).1 = (Request.serveAll Roll.answer roll requests).1 ∧
      (Request.serveAll serve s requests).2.Shows (Request.serveAll Roll.answer roll requests).2 ∧
      (Request.serveAll Roll.answer roll requests).2.Sound := by
  induction requests generalizing s roll with
  | nil => exact ⟨rfl, h, hsound⟩
  | cons r rest ih =>
    have hfirst := agrees_program s roll h hsound r
    have hsound' := Roll.sound_answer r roll (hproper r List.mem_cons_self) hsound
    rcases ih _ _ hfirst.2 hsound' fun q hq => hproper q (List.mem_cons_of_mem r hq) with
      ⟨hreplies, hshows, hlast⟩
    refine ⟨?_, hshows, hlast⟩
    have hreply : (serve r s).1 = (Roll.answer r roll).1 := hfirst.1
    simp only [Request.serveAll, hreply]
    exact congrArg (List.cons _) hreplies

theorem isStoreFailure_serveAll (roll : Roll) (requests : List Request) (reply : Request.Answered)
    (hreply : reply ∈ (Request.serveAll Roll.answer roll requests).1) (e : EngineError)
    (h : reply.2 = .error e) : e.isStoreFailure = false := by
  induction requests generalizing roll with
  | nil => exact absurd hreply List.not_mem_nil
  | cons r rest ih =>
    rcases List.mem_cons.mp hreply with rfl | hrest
    · exact Roll.isStoreFailure_answer r roll e h
    · exact ih _ hrest

/-- The list of the records has each record that can be read once, in ascending order of the ids. -/
def ListsRecords (s : Store) : Prop :=
  ∃ records : List PolicyRecord, (serve .listDynamic s).1 = .ok records ∧
    (records.map PolicyRecord.id).Pairwise (fun a b => a < b) ∧
    ∀ id r, (serve (.getDynamic id) s).1 = .ok (some r) ↔ r ∈ records ∧ r.id = id

/-- A request changes nothing that is read for another target or another id. -/
structure KeepsApart (r : Request) (s : Store) : Prop where
  entries : ∀ key : EntryKey, ¬ r.OnEntry key →
    (serve (.getStatic key.targetId key.id) (serve r s).2).1 =
      (serve (.getStatic key.targetId key.id) s).1
  pipelines : ∀ targetId, (∀ id, ¬ r.OnEntry ⟨targetId, id⟩) →
    (serve (.listStatic (some targetId)) (serve r s).2).1 =
      (serve (.listStatic (some targetId)) s).1
  records : ∀ id, ¬ r.OnRecord id →
    (serve (.getDynamic id) (serve r s).2).1 = (serve (.getDynamic id) s).1

section Shows

variable (s : Store) (roll : Roll) (h : s.Shows roll) (hsound : roll.Sound)

include h hsound

theorem listsRecords_of_shows : ListsRecords s := by
  refine ⟨roll.records.values, serve_eq s roll h hsound .listDynamic, ?_, fun id r => ?_⟩
  · rw [Dict.values, List.map_map]
    refine List.pairwise_map.mpr (roll.records.ascending.imp_of_mem fun {a b} ha hb hlt => ?_)
    have hid := fun e (he : e ∈ roll.records.entries) =>
      (hsound.records e.1 e.2 ((Dict.mem_entries_iff _ _ _).mp he)).1
    rw [Function.comp, Function.comp, hid a ha, hid b hb]
    exact hlt
  · rw [serve_eq s roll h hsound (.getDynamic id)]
    have hget : (Roll.answer (.getDynamic id) roll).1 = .ok (some r) ↔
        roll.records.get? id = some r := ⟨Except.ok.inj, congrArg Except.ok⟩
    rw [hget, Dict.values, List.mem_map]
    constructor
    · intro hr
      exact ⟨⟨(id, r), (Dict.mem_entries_iff _ _ _).mpr hr, rfl⟩, (hsound.records id r hr).1⟩
    · rintro ⟨⟨⟨other, r⟩, hmem, rfl⟩, hid⟩
      have hr := (Dict.mem_entries_iff _ _ _).mp hmem
      rwa [(hsound.records other r hr).1.symm.trans hid] at hr

theorem keepsApart_of_shows (r : Request) (hproper : r.Proper) : KeepsApart r s := by
  have hafter : (serve r s).2.Shows (Roll.answer r roll).2 := (agrees_program s roll h hsound r).2
  have hsound' := Roll.sound_answer r roll hproper hsound
  refine ⟨fun key hkey => ?_, fun targetId htarget => ?_, fun id hid => ?_⟩
  · rw [serve_eq s roll h hsound, serve_eq _ _ hafter hsound']
    exact congrArg Except.ok (Roll.entries_answer r roll key hkey)
  · rw [serve_eq s roll h hsound, serve_eq _ _ hafter hsound']
    have hpipeline := Roll.pipeline_congr roll (Roll.answer r roll).2 targetId fun id =>
      Roll.entries_answer r roll _ (htarget id)
    rw [Roll.answer, Roll.answer, Roll.listed, Roll.listed, hpipeline]
  · rw [serve_eq s roll h hsound, serve_eq _ _ hafter hsound']
    exact congrArg Except.ok (Roll.records_answer r roll id hid)

end Shows

/-- To every sequence of requests the registry answers, from an empty store on, as the roll does.
    None of the answers blames the store, the list of the records has each once in the order of ids,
    and no request changes what is read for another target or another id. -/
theorem serveAll_eq_roll (requests : List Request) (hproper : ∀ r ∈ requests, r.Proper) :
    (Request.serveAll serve Dict.empty requests).1 = (Request.serveAll Roll.answer {} requests).1 ∧
      (∀ reply ∈ (Request.serveAll serve Dict.empty requests).1, ∀ e, reply.2 = .error e →
        e.isStoreFailure = false) ∧
      ListsRecords (Request.serveAll serve Dict.empty requests).2 ∧
      ∀ r, r.Proper → KeepsApart r (Request.serveAll serve Dict.empty requests).2 := by
  rcases agrees_serveAll Dict.empty {} Store.shows_empty Roll.sound_empty requests hproper with
    ⟨hreplies, hshows, hsound⟩
  refine ⟨hreplies, fun reply hreply e he => ?_, listsRecords_of_shows _ _ hshows hsound,
    fun r hr => keepsApart_of_shows _ _ hshows hsound r hr⟩
  rw [hreplies] at hreply
  exact isStoreFailure_serveAll {} requests reply hreply e he

/-- An entry of a filter that compresses. -/
def compressing : StaticEntry := { policyId := 1, filterName := "compress", executionOrder := 1 }

/-- A record of a rule that waits for a container to be read. -/
def waiting : PolicyRecord where
  id := 2
  ruleText := "FOR CONTAINER:t2/logs WHEN reads > 5 DO SET cache TRANSIENT"
  targetName := "t2/logs"
  targetId := "t2/logs"
  filterName := "cache"
  verb := "SET"
  actionIndex := 0
  conditionText := "reads > 5"
  transient := true
  dispatchLocation := ""
  alive := true

/-- Two ids are taken and used, an entry is updated and taken out with its filter, a record is
    marked and deleted, and then the counter begins again. -/
def lifetime : List Request :=
  [.nextId, .putStatic "t1" 1 compressing, .nextId, .putDynamic waiting,
    .updateStatic "t1" 1 [("params", .string "level=9")], .getStatic "t2" 1,
    .setAlive 2 false, .listDynamic, .deleteMatching "t1" "compress", .deleteDynamic 2, .nextId]

theorem serveAll_eq_roll_lifetime : (∀ r ∈ lifetime, r.Proper) ∧
    (Request.serveAll serve Dict.empty lifetime).1 =
      [⟨.nextId, .ok (1 : Nat)⟩, ⟨.putStatic "t1" 1 compressing, .ok ()⟩, ⟨.nextId, .ok (2 : Nat)⟩,
        ⟨.putDynamic waiting, .ok ()⟩,
        ⟨.updateStatic "t1" 1 [("params", .string "level=9")],
          .ok { compressing with params := "level=9" }⟩,
        ⟨.getStatic "t2" 1, .ok none⟩, ⟨.setAlive 2 false, .ok true⟩,
        ⟨.listDynamic, .ok [waiting.marked false]⟩, ⟨.deleteMatching "t1" "compress", .ok [1]⟩,
        ⟨.deleteDynamic 2, .ok true⟩, ⟨.nextId, .ok (1 : Nat)⟩] := by
  have hproper : ∀ r ∈ lifetime, r.Proper := by
    have hentry : compressing.Storable := ⟨by decide, by decide, fun _ h => nomatch h⟩
    have hrecord : waiting.Storable := ⟨by decide, by decide, by decide, fun _ h => nomatch h⟩
    have hpatch : (Request.updateStatic "t1" 1 [("params", .string "level=9")]).Proper := by
      intro member hmember
      rw [List.mem_singleton.mp hmember]
      decide
    simp only [lifetime, List.forall_mem_cons]
    exact ⟨trivial, ⟨rfl, hentry⟩, trivial, hrecord, hpatch, trivial, trivial, trivial, trivial,
      trivial, trivial, fun _ h => absurd h List.not_mem_nil⟩
  -- Sorting goes by a recursion that is not unfolded otherwise.
  exact ⟨hproper, (serveAll_eq_roll lifetime hproper).1.trans (by with_unfolding_all rfl)⟩

end Registry

end StoragePolicy
