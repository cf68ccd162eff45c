import StoragePolicy.Proofs.Registry.Sparing
import Mathlib.Data.List.Nodup

/-!
# Callers side by side

Any number of callers work on one store, and a call of one may fall between any two calls of
another. Taking an id and storing what carries it are two calls, and a deletion is several calls
long, so the counter may be set back at any point between them.

The argument follows who holds what. A caller that has taken an id holds its reservation until it
stores something under it or gives it back; no two callers hold the same id; and every other call
of any caller takes ids away from the ledger or leaves it as it is. So the store is never vacant
while an id is held, and the counter stays where it is.

## Main definitions

* `Use`, `Caller`: What a caller does.
* `Pool`: A store with callers, each at some point of its program.
* `Pool.step`, `Pool.run`: One call of one caller, and a schedule of such calls.
* `Store.idsInUse`, `Store.counter`: The ids in use as a list, and the counter.
* `Pool.Orderly`: What every reached state satisfies.

## Theorems

* `ledger_exec_use`: The call that makes use of an id keeps it too.
* `orderly_step`, `orderly_run`: Every step keeps a pool orderly, and so does every schedule.
* `idsInUse_of_run`: The ids in use are distinct and bounded, and the next one is new.
-/

namespace StoragePolicy

open Registry

/-- What a caller does with the id it has taken. What it stores carries that id. -/
inductive Use where
  | putStatic (targetId : String) (entry : StaticEntry)
  | putDynamic (record : PolicyRecord)
  | release
  /-- Nothing: the id stays reserved. -/
  | keep

/-- The program that makes use of an id. -/
def Use.program (id : Nat) : Use → Registry Unit
  | .putStatic targetId entry => Registry.putStatic targetId id { entry with policyId := id }
  | .putDynamic record => Registry.putDynamic { record with id }
  | .release => releaseId id
  | .keep => pure ()

/-- A caller of the registry. One that takes an id may decide by the id what to do with it. -/
inductive Caller where
  | allocate (use : Nat → Use)
  | deleteStatic (targetId : String) (id : Nat)
  | deleteMatching (targetId filterName : String)
  | deleteDynamic (id : Nat)
  | setAlive (id : Nat) (alive : Bool)
  | resetIfVacant

/-- The program of a caller. -/
def Caller.program : Caller → Registry Unit
  | .allocate use => do
    let id ← nextId
    (use id).program id
  | .deleteStatic targetId id => discard (Registry.deleteStatic targetId id)
  | .deleteMatching targetId filterName => discard (Registry.deleteMatching targetId filterName)
  | .deleteDynamic id => discard (Registry.deleteDynamic id)
  | .setAlive id alive => discard (Registry.setAlive id alive)
  | .resetIfVacant => discard Registry.resetIfVacant

/-- What is left of a caller's program. -/
abbrev Process := Program Store.interface (Except EngineError Unit)

/-- A store, and the callers that work on it. -/
structure Pool where
  store : Store
  processes : List Process

namespace Pool

/-- The callers before their first call, on an empty store. -/
def start (callers : List Caller) : Pool :=
  { store := Dict.empty, processes := callers.map fun caller => caller.program.run }

/-- Makes the next call of one caller, if it has one. -/
def step (p : Pool) (i : Nat) : Pool :=
  match p.processes[i]? with
  | some (.call c next) =>
    let (reply, store) := p.store.exec c
    { store, processes := p.processes.set i (next reply) }
  | _ => p

/-- Makes calls of the callers in the order of a schedule. -/
def run (p : Pool) (schedule : List Nat) : Pool := schedule.foldl step p

end Pool

namespace Store

/-- The names of the fields of a hash; what is no hash has none. -/
def fieldNames (s : Store) (key : String) : List String :=
  match s.get? key with
  | some (.hash fields) => fields.keys
  | _ => []

/-- The ids in use: the fields of the reservations and of every pipeline, and what the keys of the
    records end with. -/
def idsInUse (s : Store) : List String :=
  s.fieldNames reservationKey ++ (s.keysUnder pipelineStem).flatMap s.fieldNames ++
    (s.keysUnder PolicyRecord.keyStem).map (dropStem PolicyRecord.keyStem)

/-- The number that the counter stands at. -/
def counter (s : Store) : Nat :=
  match s.get? counterKey with
  | some (.scalar text) => (Number.readNatural text.toList).getD 0
  | _ => 0

end Store

/-! ### Ids in use as a list -/

namespace Store

theorem mem_fieldNames_iff (s : Store) (key name : String) :
    name ∈ s.fieldNames key ↔ (s.field? key name).isSome = true := by
  rw [fieldNames, field?]
  cases Dict.get? s key with
  | none => simp
  | some value =>
    cases value with
    | hash fields => exact Dict.mem_keys_iff fields name
    | scalar text => simp
    | list items => simp

theorem nodup_fieldNames (s : Store) (key : String) : (s.fieldNames key).Nodup := by
  rw [fieldNames]
  split
  · exact Dict.nodup_keys _
  · exact List.nodup_nil

theorem dropStem_append (stem rest : String) : dropStem stem (stem ++ rest) = rest := by
  rw [dropStem, String.toList_append, ← String.length_toList, List.drop_left,
    String.ofList_toList]

theorem mem_idsInUse_iff (s : Store) (text : String) :
    text ∈ s.idsInUse ↔ ∃ place, s.Holds text place := by
  rw [idsInUse, List.mem_append, List.mem_append, mem_fieldNames_iff, List.mem_flatMap,
    List.mem_map]
  -- Each of the three lists that are searched is one kind of place.
  constructor
  · rintro ((hres | ⟨key, hkey, hname⟩) | ⟨key, hkey, rfl⟩)
    · exact ⟨.reserved, hres⟩
    · rcases (mem_keysUnder_iff s pipelineStem key).mp hkey with ⟨targetId, rfl, -⟩
      exact ⟨.entry targetId, (mem_fieldNames_iff s _ text).mp hname⟩
    · rcases (mem_keysUnder_iff s PolicyRecord.keyStem key).mp hkey with ⟨name, rfl, hget⟩
      refine ⟨.record, ?_⟩
      rw [dropStem_append]
      exact hget
  · rintro ⟨place, hplace⟩
    cases place with
    | reserved => exact Or.inl (Or.inl hplace)
    | entry targetId =>
      refine Or.inl (Or.inr ⟨pipelineKey targetId, ?_, (mem_fieldNames_iff s _ text).mpr hplace⟩)
      exact (mem_keysUnder_iff s pipelineStem _).mpr
        ⟨targetId, rfl, isSome_get?_of_field? s _ text hplace⟩
    | record =>
      refine Or.inr ⟨PolicyRecord.keyStem ++ text, ?_, dropStem_append _ _⟩
      exact (mem_keysUnder_iff s PolicyRecord.keyStem _).mpr ⟨text, rfl, hplace⟩

/-- Where the ledger is in order, no id stands twice in the list of the ids in use. -/
theorem nodup_idsInUse (s : Store) (n : Nat) (h : s.Ledger n) : s.idsInUse.Nodup := by
  have hkeys : ∀ stem, (s.keysUnder stem).Nodup := fun stem => (Dict.nodup_keys s).filter _
  have hentry : ∀ text ∈ (s.keysUnder pipelineStem).flatMap s.fieldNames,
      ∃ targetId, s.Holds text (.entry targetId) := by
    intro text ht
    rcases List.mem_flatMap.mp ht with ⟨key, hkey, hname⟩
    rcases (mem_keysUnder_iff s pipelineStem key).mp hkey with ⟨targetId, rfl, -⟩
    exact ⟨targetId, (mem_fieldNames_iff s _ text).mp hname⟩
  have hrecord : ∀ text ∈ (s.keysUnder PolicyRecord.keyStem).map (dropStem PolicyRecord.keyStem),
      s.Holds text .record := by
    intro text ht
    rcases List.mem_map.mp ht with ⟨key, hkey, rfl⟩
    rcases (mem_keysUnder_iff s PolicyRecord.keyStem key).mp hkey with ⟨name, rfl, hget⟩
    rw [dropStem_append]
    exact hget
  rw [idsInUse, List.nodup_append, List.nodup_append]
  refine ⟨⟨nodup_fieldNames s _, ?_, ?_⟩, ?_, ?_⟩
  · -- One field name of two pipelines would be in use in two places.
    rw [List.nodup_flatMap]
    refine ⟨fun key _ => nodup_fieldNames s key, ?_⟩
    refine (hkeys pipelineStem).pairwise_of_forall_ne ?_
    intro key hkey other hother hne text ht ho
    rcases (mem_keysUnder_iff s pipelineStem key).mp hkey with ⟨targetId, rfl, -⟩
    rcases (mem_keysUnder_iff s pipelineStem other).mp hother with ⟨otherId, rfl, -⟩
    have hplaces := h.unique text (.entry targetId) (.entry otherId)
      ((mem_fieldNames_iff s _ text).mp ht) ((mem_fieldNames_iff s _ text).mp ho)
    rw [Place.entry.injEq] at hplaces
    exact hne (by rw [hplaces])
  · intro text ht other ho heq
    subst heq
    rcases hentry text ho with ⟨targetId, hheld⟩
    have hplaces := h.unique text .reserved (.entry targetId)
      ((mem_fieldNames_iff s _ text).mp ht) hheld
    exact absurd hplaces (by simp)
  · refine (List.nodup_map_iff_inj_on (hkeys PolicyRecord.keyStem)).mpr ?_
    intro key hkey other hother heq
    rcases (mem_keysUnder_iff s PolicyRecord.keyStem key).mp hkey with ⟨name, rfl, -⟩
    rcases (mem_keysUnder_iff s PolicyRecord.keyStem other).mp hother with ⟨otherName, rfl, -⟩
    rw [dropStem_append, dropStem_append] at heq
    rw [heq]
  · intro text ht other ho heq
    subst heq
    have hheld := hrecord text ho
    rcases List.mem_append.mp ht with ht | ht
    · have hplaces := h.unique text .reserved .record ((mem_fieldNames_iff s _ text).mp ht) hheld
      exact absurd hplaces (by simp)
    · rcases hentry text ht with ⟨targetId, hentered⟩
      have hplaces := h.unique text (.entry targetId) .record hentered hheld
      exact absurd hplaces (by simp)

theorem counter_of_counts (s : Store) (n : Nat) (h : s.Counts counterKey n) : s.counter = n := by
  rcases h with ⟨hle, hget | ⟨hget, hzero⟩⟩
  · rw [counter, hget]
    simp only [Number.readNatural_writeNatural n hle, Option.getD_some]
  · rw [counter, hget, hzero]

end Store

/-! ### Making use of an id -/

/-- The call with which an id is made use of, if there is one. -/
def Use.call (id : Nat) : Use → Option Store.Call
  | .putStatic targetId entry => some (putStaticCall targetId id { entry with policyId := id })
  | .putDynamic record => some (.apply (recordChanges { record with id }))
  | .release => some (.apply [Registry.release id])
  | .keep => none

/-- Of the program that makes use of an id only the first call is not a sparing one. -/
theorem use_call (use : Use) (id : Nat) (c : Store.Call)
    (next : Except StoreError c.Answer → Process) (h : (use.program id).run = .call c next) :
    use.call id = some c ∧ ∀ reply, (next reply).Makes Store.Call.Sparing := by
  cases use with
  | putStatic targetId entry => cases h; exact ⟨rfl, fun _ => trivial⟩
  | putDynamic record => cases h; exact ⟨rfl, fun _ => trivial⟩
  | release =>
    cases h
    refine ⟨rfl, fun reply => ?_⟩
    cases reply with
    | ok _ => exact makes_discard _ _ sparing_resetIfVacant
    | error e => trivial
  | keep => cases h

namespace Store

/-- Giving an id back takes it off the ledger. -/
theorem ledger_release (s : Store) (n id : Nat) (h : s.Ledger n) :
    (s.exec (.apply [release id])).2.Ledger n ∧
      ∀ text, text ≠ Number.writeNatural id → s.Holds text .reserved →
        (s.exec (.apply [release id])).2.Holds text .reserved := by
  rcases h.reservations with ⟨reserved, hres⟩
  rw [exec_release s id reserved hres]
  refine ⟨?_, ?_⟩
  · refine ledger_putHash s n _ _ h counterKey_ne_reservationKey.symm fun text place hp => ?_
    rw [holds_putHash_reservations] at hp
    by_cases hplace : place = .reserved
    · subst hplace
      rw [if_pos rfl, Dict.get?_erase] at hp
      rw [Holds, field?_of_hashAt s _ _ reserved hres]
      by_cases ht : text = Number.writeNatural id
      · rw [if_pos ht] at hp
        exact absurd hp (by simp)
      · rwa [if_neg ht] at hp
    · rwa [if_neg hplace] at hp
  · intro text hne ht
    rw [Holds, field?_of_hashAt s _ _ reserved hres] at ht
    rw [holds_putHash_reservations, if_pos rfl, Dict.get?_erase, if_neg hne]
    exact ht

/-- Nothing stands under the key of a record whose id is still reserved. -/
theorem hashAt_storeKey_of_reserved (s : Store) (n id : Nat) (h : s.Ledger n)
    (hheld : s.Holds (Number.writeNatural id) .reserved) :
    s.hashAt (PolicyRecord.storeKey id) = .ok Dict.empty := by
  have hnone : s.get? (PolicyRecord.storeKey id) = none := by
    cases hget : s.get? (PolicyRecord.storeKey id) with
    | none => rfl
    | some value =>
      have hrecord : s.Holds (Number.writeNatural id) .record := by
        rw [Holds, ← PolicyRecord.storeKey, hget]
        rfl
      exact absurd (h.unique _ _ _ hheld hrecord) (by simp)
  rw [hashAt, hnone]

/-- Storing what carries a reserved id moves the id from the reservations to another place. -/
theorem ledger_put (s : Store) (n id : Nat) (key : String) (place : Place)
    (fields reserved : Dict String String) (h : s.Ledger n)
    (hheld : s.Holds (Number.writeNatural id) .reserved) (hkey : key ≠ counterKey)
    (hres : s.hashAt reservationKey = .ok reserved)
    (hput : ∀ x p, (s.putHash key fields).Holds x p →
      (p = place ∧ x = Number.writeNatural id) ∨ s.Holds x p) :
    ((s.putHash key fields).putHash reservationKey
        (reserved.erase (Number.writeNatural id))).Ledger n ∧
      ∀ text, text ≠ Number.writeNatural id → s.Holds text .reserved →
        ((s.putHash key fields).putHash reservationKey
          (reserved.erase (Number.writeNatural id))).Holds text .reserved := by
  refine ⟨?_, ?_⟩
  · refine ledger_move s _ n (Number.writeNatural id) place h hheld ?_ ?_ ?_ ?_
    · refine counts_congr s _ _ n ?_ h.counts
      rw [← get?_putHash_counter _ _ _ counterKey_ne_reservationKey.symm,
        ← get?_putHash_counter _ _ _ hkey]
    · exact hashAt_putHash_any _ _ _ _ (hashAt_putHash_any _ _ _ _ h.reservations)
    · exact fun targetId =>
        hashAt_putHash_any _ _ _ _ (hashAt_putHash_any _ _ _ _ (h.pipelines targetId))
    -- Of the reservations all others are left, and elsewhere an id is held if it was held or is
    -- the one that is put.
    · intro x p hp
      rw [holds_putHash_reservations] at hp
      by_cases hr : p = .reserved
      · subst hr
        rw [if_pos rfl, Dict.get?_erase] at hp
        by_cases hx : x = Number.writeNatural id
        · rw [if_pos hx] at hp
          exact absurd hp (by simp)
        · rw [if_neg hx] at hp
          refine Or.inr ⟨?_, fun hboth => hx hboth.2⟩
          rw [Holds, field?_of_hashAt s _ _ reserved hres]
          exact hp
      · rw [if_neg hr] at hp
        rcases hput x p hp with hmoved | hold
        · exact Or.inl hmoved
        · exact Or.inr ⟨hold, fun hboth => hr hboth.1⟩
  · intro text hne ht
    rw [Holds, field?_of_hashAt s _ _ reserved hres] at ht
    rw [holds_putHash_reservations, if_pos rfl, Dict.get?_erase, if_neg hne]
    exact ht

/-- The call that makes use of a reserved id keeps the ledger in order, and ends no other
    reservation. -/
theorem ledger_exec_use (s : Store) (n id : Nat) (use : Use) (c : Call) (h : s.Ledger n)
    (hheld : s.Holds (Number.writeNatural id) .reserved) (hc : use.call id = some c) :
    (s.exec c).2.Ledger n ∧
      ∀ text, text ≠ Number.writeNatural id → s.Holds text .reserved →
        (s.exec c).2.Holds text .reserved := by
  rcases h.reservations with ⟨reserved, hres⟩
  -- In a pipeline the id is the name of a field, and of a record it is the key.
  cases use with
  | putStatic targetId entry =>
    cases hc
    rcases h.pipelines targetId with ⟨fields, hfields⟩
    rw [exec_putStatic s targetId id _ fields reserved hfields hres]
    refine ledger_put s n id _ (.entry targetId) _ reserved h hheld
      (pipelineKey_ne_counterKey targetId) hres fun x p hp => ?_
    rw [holds_putHash_pipeline] at hp
    by_cases hplace : p = .entry targetId
    · rw [if_pos hplace, Dict.get?_insert] at hp
      by_cases hx : x = Number.writeNatural id
      · exact Or.inl ⟨hplace, hx⟩
      · rw [if_neg hx] at hp
        rw [hplace, Holds, field?_of_hashAt s _ _ fields hfields]
        exact Or.inr hp
    · rw [if_neg hplace] at hp
      exact Or.inr hp
  | putDynamic record =>
    cases hc
    have hfields := hashAt_storeKey_of_reserved s n id h hheld
    rw [exec_putDynamic s { record with id } Dict.empty reserved hfields hres]
    refine ledger_put s n id _ .record _ reserved h hheld (recordKey_ne_counterKey _) hres
      fun x p hp => ?_
    rw [PolicyRecord.storeKey, holds_putHash_record] at hp
    by_cases hplace : p = .record ∧ x = Number.writeNatural id
    · exact Or.inl hplace
    · rw [if_neg hplace] at hp
      exact Or.inr hp
  | release =>
    cases hc
    exact ledger_release s n id h
  | keep => cases hc

end Store

/-! ### Orderly pools -/

/-- Where a caller stands, and the id it holds: it has still to take one, it may make use of one,
    or what is left of it is sparing. -/
inductive Standing : Process → Option Nat → Prop where
  | fresh (use : Nat → Use) : Standing (Caller.allocate use).program.run none
  | holding (use : Use) (id : Nat) : Standing (use.program id).run (some id)
  | sparing (process : Process) (h : process.Makes Store.Call.Sparing) : Standing process none

/-- Each caller stands somewhere, and those that hold an id hold different ones, all reserved. -/
structure Pool.Orderly (p : Pool) (held : Nat → Option Nat) : Prop where
  ledger : ∃ n, p.store.Ledger n
  standing : ∀ i process, p.processes[i]? = some process → Standing process (held i)
  reserved : ∀ i id, held i = some id → p.store.Holds (Number.writeNatural id) .reserved
  apart : ∀ i j id, held i = some id → held j = some id → i = j

namespace Pool

theorem standing_program (caller : Caller) : Standing caller.program.run none := by
  cases caller with
  | allocate use => exact .fresh use
  | deleteStatic targetId id =>
    exact .sparing _ (makes_discard _ _ (sparing_deleteStatic targetId id))
  | deleteMatching targetId filterName =>
    exact .sparing _ (makes_discard _ _ (sparing_deleteMatching targetId filterName))
  | deleteDynamic id => exact .sparing _ (makes_discard _ _ (sparing_deleteDynamic id))
  | setAlive id alive => exact .sparing _ (makes_discard _ _ (sparing_setAlive id alive))
  | resetIfVacant => exact .sparing _ (makes_discard _ _ sparing_resetIfVacant)

theorem ledger_empty : Store.Ledger Dict.empty 0 :=
  Store.ledger_of_vacant _ fun key _ => Dict.get?_empty key

theorem orderly_start (callers : List Caller) : (start callers).Orderly fun _ => none where
  ledger := ⟨0, ledger_empty⟩
  standing := by
    intro i process h
    rw [start, List.getElem?_map, Option.map_eq_some_iff] at h
    rcases h with ⟨caller, -, rfl⟩
    exact standing_program caller
  reserved := fun _ _ h => absurd h (by simp)
  apart := fun _ _ _ h _ => absurd h (by simp)

/-- After a call the pool is orderly if the store and the caller are, and if the others hold what
    they held. -/
theorem orderly_set (p : Pool) (held : Nat → Option Nat) (i : Nat) (store : Store)
    (process : Process) (holds : Option Nat) (h : p.Orderly held)
    (hledger : ∃ n, store.Ledger n) (hstanding : Standing process holds)
    (hothers : ∀ j id, j ≠ i → held j = some id → store.Holds (Number.writeNatural id) .reserved)
    (hown : ∀ id, holds = some id → store.Holds (Number.writeNatural id) .reserved)
    (hnew : ∀ j id, j ≠ i → held j = some id → holds ≠ some id) :
    Orderly { store, processes := p.processes.set i process }
      (fun j => if j = i then holds else held j) where
  ledger := hledger
  standing := by
    intro j process' hj
    by_cases hji : j = i
    · subst hji
      rw [List.getElem?_set_self'] at hj
      rw [if_pos rfl]
      cases hget : p.processes[j]? with
      | none => rw [hget] at hj; exact absurd hj (by simp)
      | some old =>
        rw [hget] at hj
        cases hj
        exact hstanding
    · rw [List.getElem?_set_ne (Ne.symm hji)] at hj
      rw [if_neg hji]
      exact h.standing j process' hj
  reserved := by
    intro j id hj
    by_cases hji : j = i
    · rw [if_pos hji] at hj
      exact hown id hj
    · rw [if_neg hji] at hj
      exact hothers j id hji hj
  -- Only the caller that has moved holds anything new, and what it holds is held by no other.
  apart := by
    intro j k id hj hk
    by_cases hji : j = i
    · by_cases hki : k = i
      · rw [hji, hki]
      · rw [if_pos hji] at hj
        rw [if_neg hki] at hk
        exact absurd hj (hnew k id hki hk)
    · rw [if_neg hji] at hj
      by_cases hki : k = i
      · rw [if_pos hki] at hk
        exact absurd hk (hnew j id hji hj)
      · rw [if_neg hki] at hk
        exact h.apart j k id hj hk

/-- What an allocating caller goes on with after its first call. -/
def afterNextId (use : Nat → Use) : Except StoreError Nat → Process
  | .ok id => ((use id).program id).run
  | .error e => .done (.error (.store e))

theorem program_allocate (use : Nat → Use) :
    (Caller.allocate use).program.run = .call nextIdCall (afterNextId use) := by
  have hnext : ∀ reply, (afterNextId use) reply = Program.bind
      (.done (Except.mapError EngineError.store reply))
      (ExceptT.bindCont fun id => (use id).program id) := by
    intro reply
    cases reply <;> rfl
  rw [funext hnext]
  rfl

/-- Every step keeps a pool orderly, as long as the counter has room. -/
theorem orderly_step (p : Pool) (held : Nat → Option Nat) (i : Nat) (h : p.Orderly held)
    (hroom : p.store.counter < Number.maxWord) : ∃ held', (p.step i).Orderly held' := by
  rw [step]
  split
  case h_2 => exact ⟨held, h⟩
  case h_1 c next hget =>
    rcases h.ledger with ⟨n, hledger⟩
    rw [Store.counter_of_counts p.store n hledger.counts] at hroom
    have hstanding := h.standing i _ hget
    generalize hprocess : Program.call c next = process at hstanding
    generalize hi : held i = holds at hstanding
    -- Where a process stands tells its next call: it takes an id, makes use of the one it holds, or
    -- does neither.
    cases hstanding with
    | fresh use =>
      rw [program_allocate] at hprocess
      cases hprocess
      rcases hledger.reservations with ⟨reserved, hres⟩
      rw [Store.exec_nextId p.store n reserved hledger.counts hroom hres]
      have hholds := Store.holds_withNextId p.store n reserved hres
      refine ⟨_, orderly_set p held i _ _ (some (n + 1)) h ?_ (.holding _ _) ?_ ?_ ?_⟩
      · exact ⟨n + 1, Store.ledger_nextId p.store n reserved hledger hroom hres⟩
      · exact fun j id _ hj => (hholds _ _).mpr (Or.inr (h.reserved j id hj))
      · intro id hid
        cases hid
        exact (hholds _ _).mpr (Or.inl ⟨rfl, rfl⟩)
      · -- The ids held by others are not greater than the counter.
        intro j id _ hj heq
        rcases hledger.bounded _ _ (h.reserved j id hj) with ⟨id', hid', -, hle⟩
        have hsame := Number.writeNatural_inj id id' hid'
        cases heq
        omega
    | holding use id =>
      rcases use_call use id c next hprocess.symm with ⟨hcall, hrest⟩
      have hexec := Store.ledger_exec_use p.store n id use c hledger (h.reserved i id hi) hcall
      refine ⟨_, orderly_set p held i _ _ none h ⟨n, hexec.1⟩ (.sparing _ (hrest _)) ?_
        (fun _ hid => absurd hid (by simp)) (fun _ _ _ _ => by simp)⟩
      intro j id' hji hj
      refine hexec.2 _ ?_ (h.reserved j id' hj)
      intro heq
      have hsame := Number.writeNatural_inj id' id heq
      exact hji (h.apart j i id (hsame ▸ hj) hi)
    | sparing _ hsparing =>
      subst hprocess
      rcases Store.ledger_exec_sparing p.store n c hledger hsparing.1 with
        ⟨m, -, hm, -, hreserved⟩
      refine ⟨_, orderly_set p held i _ _ none h ⟨m, hm⟩ (.sparing _ (hsparing.2 _)) ?_
        (fun _ hid => absurd hid (by simp)) (fun _ _ _ _ => by simp)⟩
      exact fun j id _ hj => hreserved _ (h.reserved j id hj)

/-- Every schedule keeps a pool orderly, as long as the counter has room on the way. -/
theorem orderly_run (p : Pool) (held : Nat → Option Nat) (schedule : List Nat)
    (h : p.Orderly held)
    (hroom : ∀ k, (p.run (schedule.take k)).store.counter < Number.maxWord) :
    ∃ held', (p.run schedule).Orderly held' := by
  induction schedule generalizing p held with
  | nil => exact ⟨held, h⟩
  | cons i rest ih =>
    rcases orderly_step p held i h (hroom 0) with ⟨held', hstep⟩
    refine ih (p.step i) held' hstep fun k => ?_
    exact hroom (k + 1)

/-- In every state that callers reach on an empty store, whatever the order of their calls, the
    ids in use are distinct, begin with one, and do not exceed the counter. So the next id is none
    of them. -/
theorem idsInUse_of_run (callers : List Caller) (schedule : List Nat)
    (hroom : ∀ k, ((start callers).run (schedule.take k)).store.counter < Number.maxWord) :
    ((start callers).run schedule).store.idsInUse.Nodup ∧
      (∀ text ∈ ((start callers).run schedule).store.idsInUse,
        ∃ id, text = Number.writeNatural id ∧ 1 ≤ id ∧
          id ≤ ((start callers).run schedule).store.counter) ∧
      ∃ id, (((start callers).run schedule).store.exec nextIdCall).1 = .ok id ∧
        Number.writeNatural id ∉ ((start callers).run schedule).store.idsInUse := by
  rcases orderly_run (start callers) _ schedule (orderly_start callers) hroom with ⟨held, h⟩
  rcases h.ledger with ⟨n, hledger⟩
  have hcounter := Store.counter_of_counts _ n hledger.counts
  have hlast := hroom schedule.length
  rw [List.take_length, hcounter] at hlast
  rw [hcounter]
  have hbounded : ∀ text ∈ ((start callers).run schedule).store.idsInUse,
      ∃ id, text = Number.writeNatural id ∧ 1 ≤ id ∧ id ≤ n := by
    intro text ht
    rcases (Store.mem_idsInUse_iff _ text).mp ht with ⟨place, hplace⟩
    exact hledger.bounded text place hplace
  refine ⟨Store.nodup_idsInUse _ n hledger, hbounded, n + 1, ?_, ?_⟩
  · rcases hledger.reservations with ⟨reserved, hres⟩
    rw [Store.exec_nextId _ n reserved hledger.counts hlast hres]
  · intro hmem
    rcases hbounded _ hmem with ⟨id, hid, -, hle⟩
    have hsame := Number.writeNatural_inj _ _ hid
    omega

/-- A caller that stores an entry, one that sets the counter back, and one that gives its id
    back. -/
def threeCallers : List Caller :=
  [.allocate fun id => .putStatic "t" { policyId := id, filterName := "f", executionOrder := id },
   .resetIfVacant, .allocate fun _ => .release]

/-- The counter may be set back between an allocation and its entry: it stays where it is. -/
theorem idsInUse_of_run_reset_between :
    (∀ k, ((start threeCallers).run ([0, 1, 2, 0, 2, 2].take k)).store.counter < Number.maxWord) ∧
      ((start threeCallers).run [0, 1, 2, 0, 2, 2]).store.idsInUse = ["1"] ∧
      ∃ id, (((start threeCallers).run [0, 1, 2, 0, 2, 2]).store.exec nextIdCall).1 = .ok id ∧
        Number.writeNatural id ∉ ((start threeCallers).run [0, 1, 2, 0, 2, 2]).store.idsInUse := by
  have hprefixes : ∀ k ≤ 6, ((start threeCallers).run
      ([0, 1, 2, 0, 2, 2].take k)).store.counter < Number.maxWord := by decide +kernel
  have hroom : ∀ k, ((start threeCallers).run
      ([0, 1, 2, 0, 2, 2].take k)).store.counter < Number.maxWord := by
    intro k
    by_cases hk : k ≤ 6
    · exact hprefixes k hk
    · rw [List.take_of_length_le (by simp; omega)]
      exact hprefixes 6 (Nat.le_refl 6)
  exact ⟨hroom, by decide +kernel, (idsInUse_of_run threeCallers _ hroom).2.2⟩

end Pool

end StoragePolicy
