import StoragePolicy.Proofs.Registry.Callers
import StoragePolicy.Proofs.Registry.Pipelines

/-!
# When the counter begins again

The counter goes back to zero in a call of its own, after the removal that may have emptied the
registry. Between the two anything may happen. That the counter is not forgotten is therefore not
seen from one caller: it may be that somebody else has taken an id in between, and then it falls to
whoever removes that one.

What holds at every point is that one of three things is true: some id is in use, or the counter
stands at zero, or a caller that has begun will set the counter back before it does anything else
but take more entries away. Where no caller is in the middle of something the third is excluded.

The reset goes by the beginnings of keys, and not by ids. Here it matters that the registry leaves
nothing behind under these keys: a hash without fields has disappeared, and nothing else was put
there.

## Main definitions

* `Store.Populated`: What is in the store but the counter are hashes with fields, under keys of ids.
* `Registry.Noticed`, `Store.Telling`: The keys of which the reset takes notice, and the same for
  them.
* `Program.Resets`, `Program.FollowsUp`: Programs that set the counter back next, and programs in
  which every removal is followed up in this way.
* `Pool.Prompt`: What holds at every point.
* `Pool.Resting`: A caller that is not in the middle of something.
* `Store.Settled`: What is then to be seen in the store.

## Theorems

* `exec_reset`: The reset leaves no counter but zero behind in a store without ids.
* `followsUp_program`: All callers follow their removals up.
* `prompt_step`, `prompt_run`: What holds at every point.
* `settled_of_run`: Where all callers rest, the counter stands at zero exactly if no id is in use,
  and removing what is not there changes nothing.
-/

namespace StoragePolicy

open Registry

/-- The keys of which the reset takes notice. -/
def Registry.Noticed (key : String) : Prop := ∃ stem ∈ idStems, ∃ rest, key = stem ++ rest

/-- Calls by which something is taken away that carries an id. -/
def Store.Call.Removes : Store.Call → Prop
  | .apply [.deleteField _ _] | .apply [.delete _] => True
  | _ => False

namespace Store

/-- Everything in the store but the counter is a hash with fields, and stands under a key under
    which ids are kept. -/
def Populated (s : Store) : Prop :=
  ∀ key value, key ≠ counterKey → s.get? key = some value →
    Own key ∧ ∃ fields, value = .hash fields ∧ fields.isEmpty = false

/-- Everything of which the reset takes notice is a hash with fields, and stands under a key under
    which ids are kept. -/
def Telling (s : Store) : Prop :=
  ∀ key value, Noticed key → s.get? key = some value →
    Own key ∧ ∃ fields, value = .hash fields ∧ fields.isEmpty = false

/-! ### Populated stores -/

theorem populated_empty : Populated Dict.empty := fun _ _ _ h => nomatch h

theorem populated_putHash (s : Store) (h : s.Populated) (key : String) (hkey : Own key)
    (fields : Dict String String) : (s.putHash key fields).Populated := by
  intro other value hother hvalue
  rcases get?_putHash_cases s key other fields value hvalue with ⟨rfl, rfl, hempty⟩ | ⟨-, hold⟩
  · exact ⟨hkey, fields, rfl, hempty⟩
  · exact h other value hother hold

theorem populated_counter (s : Store) (h : s.Populated) (value : StoreValue) :
    Populated (s.insert counterKey value) := by
  intro key stored hkey hstored
  rw [Dict.get?_insert, if_neg hkey] at hstored
  exact h key stored hkey hstored

theorem own_reservationKey : Own reservationKey := Or.inr (Or.inl rfl)

theorem own_pipelineKey (targetId : String) : Own (pipelineKey targetId) :=
  Or.inr (Or.inr (Or.inl ⟨targetId, rfl⟩))

theorem own_storeKey (id : Nat) : Own (PolicyRecord.storeKey id) :=
  Or.inr (Or.inr (Or.inr ⟨_, rfl⟩))

theorem noticed_ne_counterKey (key : String) (h : Noticed key) : key ≠ counterKey := by
  rcases h with ⟨stem, hstem, rest, rfl⟩
  intro heq
  have hchars := congrArg String.toList heq
  simp only [idStems, List.mem_cons, List.not_mem_nil, or_false] at hstem
  rcases hstem with rfl | rfl | rfl
  · exact recordKey_ne_counterKey rest heq
  · exact pipelineKey_ne_counterKey rest heq
  · simp [reservationKey, counterKey] at hchars

theorem telling_of_populated (s : Store) (h : s.Populated) : s.Telling :=
  fun key value hkey hvalue => h key value (noticed_ne_counterKey key hkey) hvalue

/-- A hash with fields holds an id, be it that of the reservations, of a pipeline or of a record. -/
theorem holds_of_own (s : Store) (key : String) (hkey : key ≠ counterKey) (hown : Own key)
    (fields : Dict String String) (hvalue : s.get? key = some (.hash fields))
    (hfields : fields.isEmpty = false) : ∃ text place, s.Holds text place := by
  have hfield : ∃ text, (s.field? key text).isSome = true := by
    cases hentries : fields.entries with
    | nil => simp [Dict.isEmpty, hentries] at hfields
    | cons e rest =>
      refine ⟨e.1, ?_⟩
      have he : fields.get? e.1 = some e.2 := (Dict.mem_entries_iff fields e.1 e.2).mp (by
        rw [hentries]
        exact List.mem_cons_self)
      rw [field?, hvalue]
      simp only [he, Option.isSome_some]
  rcases hfield with ⟨text, htext⟩
  rcases hown with rfl | rfl | ⟨targetId, rfl⟩ | ⟨name, rfl⟩
  · exact absurd rfl hkey
  · exact ⟨text, .reserved, htext⟩
  · exact ⟨text, .entry targetId, htext⟩
  · refine ⟨name, .record, ?_⟩
    rw [Holds, hvalue]
    rfl

/-- The reset takes notice of no other keys. -/
theorem holds_of_any_idStems (s : Store) (h : s.Telling)
    (hany : (s.keys.any fun key => idStems.any fun stem =>
      stem.toList.isPrefixOf key.toList) = true) : ∃ text place, s.Holds text place := by
  rcases List.any_eq_true.mp hany with ⟨key, hkey, hstems⟩
  rcases List.any_eq_true.mp hstems with ⟨stem, hstem, hbegins⟩
  rcases List.isPrefixOf_iff_prefix.mp hbegins with ⟨rest, hrest⟩
  have hsplit : key = stem ++ String.ofList rest := String.toList_inj.mp (by simp [hrest])
  subst hsplit
  rcases Option.isSome_iff_exists.mp ((Dict.mem_keys_iff s _).mp hkey) with ⟨value, hvalue⟩
  have hnoticed : Noticed (stem ++ String.ofList rest) := ⟨stem, hstem, _, rfl⟩
  rcases h _ value hnoticed hvalue with ⟨hown, fields, rfl, hfields⟩
  exact holds_of_own s _ (noticed_ne_counterKey _ hnoticed) hown fields hvalue hfields

/-! ### The reset -/

/-- The reset changes nothing if an id is in use, and else it leaves no counter but zero. -/
theorem exec_reset (s : Store) (n : Nat) (h : s.Telling) (hcounts : s.Counts counterKey n) :
    ((∃ text place, s.Holds text place) → (s.exec resetCall).2 = s) ∧
      ((¬ ∃ text place, s.Holds text place) → (s.exec resetCall).2.Counts counterKey 0) ∧
      ∃ done, (s.exec resetCall).1 = .ok done := by
  simp only [exec, resetIfVacant]
  cases hany : s.keys.any fun key => idStems.any fun stem =>
      stem.toList.isPrefixOf key.toList with
  | true =>
    rw [if_pos rfl]
    exact ⟨fun _ => rfl, fun hnone => absurd (holds_of_any_idStems s h hany) hnone, false, rfl⟩
  | false =>
    rw [if_neg (by simp)]
    have hvacant : ¬ ∃ text place, s.Holds text place := by
      rintro ⟨text, place, hheld⟩
      rw [any_idStems_of_holds s text place hheld] at hany
      cases hany
    refine ⟨fun hheld => absurd hheld hvacant, fun _ => ?_, ?_⟩
    -- A counter that is not there is not put there either.
    · rcases hcounts with ⟨-, hget | ⟨hget, -⟩⟩
      · rw [hget]
        exact counts_zero_insert s
      · rw [hget]
        exact ⟨Nat.zero_le _, Or.inr ⟨hget, rfl⟩⟩
    · rcases hcounts with ⟨-, hget | ⟨hget, -⟩⟩
      · rw [hget]
        exact ⟨true, rfl⟩
      · rw [hget]
        exact ⟨false, rfl⟩

/-- Where an id is in use or the counter stands at zero there is nothing to set back. -/
theorem exec_reset_of_settled (s : Store) (n : Nat) (h : s.Populated)
    (hcounts : s.Counts counterKey n)
    (hsettled : (∃ text place, s.Holds text place) ∨ s.Counts counterKey 0) :
    (s.exec resetCall).2 = s := by
  by_cases hheld : ∃ text place, s.Holds text place
  · exact (exec_reset s n (telling_of_populated s h) hcounts).1 hheld
  · rcases hsettled with hsome | ⟨-, hzero⟩
    · exact absurd hsome hheld
    · simp only [exec, resetIfVacant]
      split
      · rfl
      · rcases hzero with hget | ⟨hget, -⟩
        · -- The zero that is written is the one that stands there.
          rw [hget]
          refine Dict.ext_get? _ _ fun key => ?_
          rw [Dict.get?_insert]
          split
          · rename_i hkey
            rw [hkey, hget]
            rfl
          · rfl
        · rw [hget]

/-! ### What the calls of callers keep -/

/-- A sparing change takes one entry off a pipeline, or deletes one record. -/
theorem sparing_apply (changes : List Mutation) (hc : (Call.apply changes).Sparing) :
    (∃ targetId name, changes = [.deleteField (pipelineKey targetId) name]) ∨
      ∃ id, changes = [.delete (PolicyRecord.storeKey id)] := by
  rcases changes with _ | ⟨m, _ | ⟨m', rest⟩⟩
  · exact absurd hc id
  · cases m with
    | deleteField key name =>
      rcases hc with ⟨targetId, rfl⟩
      exact Or.inl ⟨targetId, name, rfl⟩
    | delete key =>
      rcases hc with ⟨id, rfl⟩
      exact Or.inr ⟨id, rfl⟩
    | _ => exact absurd hc id
  · cases m <;> exact absurd hc id

/-- A call that only looks, marks a record or sets the counter back changes no holder. A removal is
    not refused. -/
theorem exec_sparing_cases (s : Store) (n : Nat) (h : s.Ledger n) (c : Call) (hc : c.Sparing) :
    c = resetCall ∨ (c.Removes ∧ ∃ answer, (s.exec c).1 = .ok answer) ∨
      (¬ c.Removes ∧ c ≠ resetCall ∧ (s.exec c).2.get? counterKey = s.get? counterKey ∧
        ∀ text place, (s.exec c).2.Holds text place ↔ s.Holds text place) := by
  cases c with
  | get key => exact Or.inr (Or.inr ⟨id, by simp, rfl, fun _ _ => Iff.rfl⟩)
  | getField key name => exact Or.inr (Or.inr ⟨id, by simp, rfl, fun _ _ => Iff.rfl⟩)
  | getFields key => exact Or.inr (Or.inr ⟨id, by simp, rfl, fun _ _ => Iff.rfl⟩)
  | getItems key => exact Or.inr (Or.inr ⟨id, by simp, rfl, fun _ _ => Iff.rfl⟩)
  | contains key => exact Or.inr (Or.inr ⟨id, by simp, rfl, fun _ _ => Iff.rfl⟩)
  | keys stem => exact Or.inr (Or.inr ⟨id, by simp, rfl, fun _ _ => Iff.rfl⟩)
  | increment key => exact absurd hc id
  | incrementReserving counter reservations => exact absurd hc id
  | resetIfVacant counter stems =>
    rcases hc with ⟨rfl, rfl⟩
    exact Or.inl rfl
  | updateField key name value =>
    rcases hc with ⟨id, rfl⟩
    refine Or.inr (Or.inr ⟨fun h => h, by simp, ?_, (ledger_updateField s n id name value h).2⟩)
    refine get?_exec s _ counterKey ?_
    rw [Call.changed, List.mem_singleton]
    exact (recordKey_ne_counterKey _).symm
  -- The batches that spare ids are the removals.
  | apply changes =>
    refine Or.inr (Or.inl ?_)
    rcases sparing_apply changes hc with ⟨targetId, name, rfl⟩ | ⟨id, rfl⟩
    · rcases h.pipelines targetId with ⟨fields, hfields⟩
      have hexec := applyBatch_single s _ _ (mutate_deleteField s _ name fields hfields)
      exact ⟨trivial, (), congrArg Prod.fst hexec⟩
    · exact ⟨trivial, (), congrArg Prod.fst (applyBatch_single s _ _ rfl)⟩

theorem populated_exec_sparing (s : Store) (n : Nat) (h : s.Ledger n) (hs : s.Populated) (c : Call)
    (hc : c.Sparing) : (s.exec c).2.Populated := by
  cases c with
  | get key => exact hs
  | getField key name => exact hs
  | getFields key => exact hs
  | getItems key => exact hs
  | contains key => exact hs
  | keys stem => exact hs
  | increment key => exact absurd hc id
  | incrementReserving counter reservations => exact absurd hc id
  | resetIfVacant counter stems =>
    rcases hc with ⟨rfl, rfl⟩
    simp only [exec, resetIfVacant]
    split
    · exact hs
    · split
      · exact hs
      · exact populated_counter s hs _
      · exact hs
  | updateField key name value =>
    rcases hc with ⟨id, rfl⟩
    simp only [exec, updateField]
    split
    · exact hs
    · split
      · exact populated_putHash s hs _ (own_storeKey id) _
      · exact hs
  | apply changes =>
    rcases sparing_apply changes hc with ⟨targetId, name, rfl⟩ | ⟨id, rfl⟩
    · rcases h.pipelines targetId with ⟨fields, hfields⟩
      rw [exec, applyBatch_single s _ _ (mutate_deleteField s _ name fields hfields)]
      exact populated_putHash s hs _ (own_pipelineKey targetId) _
    · rw [exec, applyBatch_single s (s.erase (PolicyRecord.storeKey id)) _ rfl]
      exact populated_putHash s hs _ (own_storeKey id) Dict.empty

/-- The call that makes use of a reserved id leaves something that carries the id, unless it gives
    the id back. -/
theorem exec_use (s : Store) (n id : Nat) (use : Use) (c : Call) (h : s.Ledger n)
    (hs : s.Populated) (hheld : s.Holds (Number.writeNatural id) .reserved)
    (hc : use.call id = some c) :
    (s.exec c).2.Populated ∧ (∃ answer, (s.exec c).1 = .ok answer) ∧
      (use ≠ .release → ∃ text place, (s.exec c).2.Holds text place) := by
  rcases h.reservations with ⟨reserved, hres⟩
  -- What is put carries the id, whatever becomes of the reservation.
  cases use with
  | putStatic targetId entry =>
    cases hc
    rcases h.pipelines targetId with ⟨fields, hfields⟩
    rw [exec_putStatic s targetId id _ fields reserved hfields hres]
    refine ⟨?_, ⟨(), rfl⟩, fun _ => ⟨Number.writeNatural id, .entry targetId, ?_⟩⟩
    · exact populated_putHash _ (populated_putHash s hs _ (own_pipelineKey targetId) _) _
        own_reservationKey _
    · rw [holds_putHash_reservations, if_neg (by simp), holds_putHash_pipeline, if_pos rfl,
        Dict.get?_insert, if_pos rfl]
      rfl
  | putDynamic record =>
    cases hc
    have hfields := hashAt_storeKey_of_reserved s n id h hheld
    rw [exec_putDynamic s { record with id } Dict.empty reserved hfields hres]
    refine ⟨?_, ⟨(), rfl⟩, fun _ => ⟨Number.writeNatural id, .record, ?_⟩⟩
    · exact populated_putHash _ (populated_putHash s hs _ (own_storeKey id) _) _
        own_reservationKey _
    · rw [holds_putHash_reservations, if_neg (by simp), PolicyRecord.storeKey,
        holds_putHash_record, if_pos ⟨rfl, rfl⟩]
      exact PolicyRecord.isEmpty_hash { record with id }
  | release =>
    cases hc
    rw [exec_release s id reserved hres]
    refine ⟨populated_putHash s hs _ own_reservationKey _, ⟨(), rfl⟩, fun hne => absurd rfl hne⟩
  | keep => cases hc

end Store

/-! ### Programs that follow their removals up -/

namespace Program

variable {α β : Type}

/-- Programs that set the counter back before they do anything else but take entries out of
    pipelines. -/
def Resets : Program Store.interface α → Prop
  | .done _ => False
  | .call c next => c = resetCall ∨
      (∃ targetId name, c = .apply [.deleteField (pipelineKey targetId) name]) ∧
        ∀ answer, (next (.ok answer)).Resets

/-- Programs in which a removal that is made is followed by a reset. -/
def FollowsUp : Program Store.interface α → Prop
  | .done _ => True
  | .call c next =>
    (c.Removes → ∀ answer, (next (.ok answer)).Resets) ∧ ∀ reply, (next reply).FollowsUp

theorem resets_bind (p : Program Store.interface α) (f : α → Program Store.interface β)
    (h : p.Resets) : (p.bind f).Resets := by
  induction p with
  | done a => exact False.elim h
  | call c next ih =>
    rcases h with h | ⟨h, hnext⟩
    · exact Or.inl h
    · exact Or.inr ⟨h, fun answer => ih (.ok answer) (hnext answer)⟩

theorem followsUp_bind (p : Program Store.interface α) (f : α → Program Store.interface β)
    (hp : p.FollowsUp) (hf : ∀ a, (f a).FollowsUp) : (p.bind f).FollowsUp := by
  induction p with
  | done a => exact hf a
  | call c next ih =>
    exact ⟨fun hc answer => resets_bind _ f (hp.1 hc answer), fun reply => ih reply (hp.2 reply)⟩

/-- What makes no removals has none to follow up. -/
theorem followsUp_of_makes (p : Program Store.interface α)
    (h : p.Makes fun c : Store.Call => ¬ c.Removes) :
    p.FollowsUp := by
  induction p with
  | done a => trivial
  | call c next ih => exact ⟨fun hc => absurd hc h.1, fun reply => ih reply (h.2 reply)⟩

end Program

namespace Registry

theorem followsUp_discard {α : Type} (p : Registry α) (h : p.run.FollowsUp) :
    (discard p).run.FollowsUp := by
  refine Program.followsUp_bind p.run _ h fun result => ?_
  cases result <;> trivial

/-- The end of a deletion sets the counter back. -/
theorem resets_then {α : Type} (a : α) :
    (do discard resetIfVacant; pure a : Registry α).run.Resets := Or.inl rfl

theorem followsUp_then {α : Type} (a : α) :
    (do discard resetIfVacant; pure a : Registry α).run.FollowsUp :=
  Program.followsUp_of_makes _ (makes_reset_then _ a id)

theorem followsUp_deleteStatic (targetId : String) (id : Nat) :
    (deleteStatic targetId id).run.FollowsUp := by
  refine ⟨fun h => False.elim h, fun reply => ?_⟩
  cases reply with
  | error e => trivial
  | ok stored =>
    cases stored with
    | none => exact followsUp_then false
    | some text =>
      refine ⟨fun _ _ => resets_then true, fun reply => ?_⟩
      cases reply with
      | error e => trivial
      | ok _ => exact followsUp_then true

theorem followsUp_deleteDynamic (id : Nat) : (deleteDynamic id).run.FollowsUp := by
  refine ⟨fun h => False.elim h, fun reply => ?_⟩
  cases reply with
  | error e => trivial
  | ok existed =>
    cases existed with
    | false => exact followsUp_then false
    | true =>
      refine ⟨fun _ _ => resets_then true, fun reply => ?_⟩
      cases reply with
      | error e => trivial
      | ok _ => exact followsUp_then true

section DeleteFields

variable {α : Type} (a : α) (targetId : String)

/-- Several removals from a pipeline are followed by one reset. -/
theorem resets_deleteFields (ids : List Nat) :
    (do deleteFields (pipelineKey targetId) ids; discard resetIfVacant; pure a :
      Registry α).run.Resets := by
  induction ids with
  | nil => exact resets_then a
  | cons id rest ih => exact Or.inr ⟨⟨targetId, _, rfl⟩, fun _ => ih⟩

theorem followsUp_deleteFields (ids : List Nat) :
    (do deleteFields (pipelineKey targetId) ids; discard resetIfVacant; pure a :
      Registry α).run.FollowsUp := by
  induction ids with
  | nil => exact followsUp_then a
  | cons id rest ih =>
    refine ⟨fun _ _ => resets_deleteFields a targetId rest, fun reply => ?_⟩
    cases reply with
    | error e => trivial
    | ok _ => exact ih

end DeleteFields

theorem followsUp_deleteMatching (targetId filterName : String) :
    (deleteMatching targetId filterName).run.FollowsUp := by
  refine Program.followsUp_bind (entriesOf targetId).run _ ?_ fun result => ?_
  · exact Program.followsUp_of_makes _ (makes_entriesOf _ targetId id)
  · cases result with
    | error e => trivial
    | ok entries => exact followsUp_deleteFields _ targetId _

end Registry

/-! ### Callers at every point -/

namespace Pool

/-- What follows the call that makes use of an id is a reset, if the id is given back, and else
    nothing. -/
theorem followsUp_use (use : Use) (id : Nat) : (use.program id).run.FollowsUp := by
  cases use with
  | putStatic targetId entry => exact ⟨fun h => False.elim h, fun _ => trivial⟩
  | putDynamic record =>
    -- The fields of a record are several, and so they are not one removal.
    exact ⟨fun h => False.elim h, fun _ => trivial⟩
  | release =>
    refine ⟨fun _ _ => Or.inl rfl, fun reply => ?_⟩
    cases reply with
    | error e => trivial
    | ok _ => exact followsUp_discard _ ⟨fun h => False.elim h, fun _ => trivial⟩
  | keep => trivial

/-- All callers follow their removals up. -/
theorem followsUp_program (caller : Caller) : caller.program.run.FollowsUp := by
  cases caller with
  | allocate use =>
    rw [program_allocate]
    refine ⟨fun h => False.elim h, fun reply => ?_⟩
    cases reply with
    | error e => trivial
    | ok id => exact followsUp_use (use id) id
  | deleteStatic targetId id => exact followsUp_discard _ (followsUp_deleteStatic targetId id)
  | deleteMatching targetId filterName =>
    exact followsUp_discard _ (followsUp_deleteMatching targetId filterName)
  | deleteDynamic id => exact followsUp_discard _ (followsUp_deleteDynamic id)
  | setAlive id alive => exact followsUp_discard _ ⟨fun h => False.elim h, fun _ => trivial⟩
  | resetIfVacant => exact followsUp_discard _ ⟨fun h => False.elim h, fun _ => trivial⟩

/-- At every point an id is in use, or the counter stands at zero, or a caller that has begun is
    about to set the counter back. -/
structure Prompt (p : Pool) (begun : Nat → Prop) : Prop where
  populated : p.store.Populated
  followsUp : ∀ (i : Nat) (process : Process), p.processes[i]? = some process → process.FollowsUp
  settled : (∃ text place, p.store.Holds text place) ∨ p.store.Counts counterKey 0 ∨
    ∃ (i : Nat) (process : Process), begun i ∧ p.processes[i]? = some process ∧ process.Resets

theorem prompt_start (callers : List Caller) : (start callers).Prompt fun _ => False where
  populated := Store.populated_empty
  followsUp := by
    intro i process h
    rw [start, List.getElem?_map, Option.map_eq_some_iff] at h
    rcases h with ⟨caller, -, rfl⟩
    exact followsUp_program caller
  settled := Or.inr (Or.inl ⟨Nat.zero_le _, Or.inr ⟨rfl, rfl⟩⟩)

section Step

variable (p : Pool) (begun : Nat → Prop) (i : Nat)

/-- A step of one caller leaves a reset that another one owes. -/
theorem settled_of_others (h : p.Prompt begun) (store : Store) (process : Process)
    (hheld : (∃ text place, p.store.Holds text place) → ∃ text place, store.Holds text place)
    (hcounts : p.store.Counts counterKey 0 → store.Counts counterKey 0)
    (hown : ∀ old : Process, p.processes[i]? = some old → ¬ old.Resets) :
    (∃ text place, store.Holds text place) ∨ store.Counts counterKey 0 ∨
      ∃ (j : Nat) (other : Process), (j = i ∨ begun j) ∧
        (p.processes.set i process)[j]? = some other ∧ other.Resets := by
  rcases h.settled with hsome | hzero | ⟨j, other, hbegun, hj, hresets⟩
  · exact Or.inl (hheld hsome)
  · exact Or.inr (Or.inl (hcounts hzero))
  · refine Or.inr (Or.inr ⟨j, other, Or.inr hbegun, ?_, hresets⟩)
    rw [List.getElem?_set_ne, hj]
    rintro rfl
    exact hown other hj hresets

theorem followsUp_set (h : p.Prompt begun) (process : Process) (hprocess : process.FollowsUp)
    (j : Nat) (other : Process) (hj : (p.processes.set i process)[j]? = some other) :
    other.FollowsUp := by
  by_cases hji : j = i
  · subst hji
    rcases List.getElem?_eq_some_iff.mp hj with ⟨hlt, -⟩
    rw [List.length_set] at hlt
    rw [List.getElem?_set_self hlt] at hj
    cases hj
    exact hprocess
  · rw [List.getElem?_set_ne (Ne.symm hji)] at hj
    exact h.followsUp j other hj

/-- After a sparing call an id is in use, the counter stands at zero, or a reset is owed: the call
    was the reset, or a removal that its caller follows up, or one that leaves the ids alone. -/
theorem settled_sparing (h : p.Prompt begun) (n : Nat) (hledger : p.store.Ledger n)
    (c : Store.Call) (next : Except StoreError c.Answer → Process)
    (hget : p.processes[i]? = some (.call c next)) (hc : c.Sparing) :
    (∃ text place, (p.store.exec c).2.Holds text place) ∨
      (p.store.exec c).2.Counts counterKey 0 ∨
      ∃ (j : Nat) (other : Process), (j = i ∨ begun j) ∧
        (p.processes.set i (next (p.store.exec c).1))[j]? = some other ∧ other.Resets := by
  have hset : (p.processes.set i (next (p.store.exec c).1))[i]? =
      some (next (p.store.exec c).1) :=
    List.getElem?_set_self (List.getElem?_eq_some_iff.mp hget).1
  rcases Store.exec_sparing_cases p.store n hledger c hc with
    rfl | ⟨hremoves, answer, hanswer⟩ | ⟨hremoves, hreset, hcounter, hsame⟩
  -- The reset finds an id in use, or it leaves the counter at zero.
  · have hexec := Store.exec_reset p.store n (Store.telling_of_populated _ h.populated)
      hledger.counts
    by_cases hheld : ∃ text place, p.store.Holds text place
    · rw [hexec.1 hheld]
      exact Or.inl hheld
    · exact Or.inr (Or.inl (hexec.2.1 hheld))
  · refine Or.inr (Or.inr ⟨i, _, Or.inl rfl, hset, ?_⟩)
    rw [hanswer]
    exact (h.followsUp i _ hget).1 hremoves answer
  · refine settled_of_others p begun i h _ _ ?_ ?_ ?_
    · rintro ⟨text, place, hheld⟩
      exact ⟨text, place, (hsame text place).mpr hheld⟩
    · exact Store.counts_congr _ _ _ _ hcounter.symm
    · intro old hold hresets
      rw [hget] at hold
      cases hold
      rcases hresets with rfl | ⟨⟨targetId, name, rfl⟩, -⟩
      · exact hreset rfl
      · exact hremoves trivial

/-- Every step of an orderly pool keeps it prompt. -/
theorem prompt_step (held : Nat → Option Nat) (horderly : p.Orderly held) (h : p.Prompt begun)
    (hroom : p.store.counter < Number.maxWord) :
    (p.step i).Prompt fun j => j = i ∨ begun j := by
  rw [step]
  split
  case h_2 =>
    refine ⟨h.populated, h.followsUp, ?_⟩
    rcases h.settled with hsome | hzero | ⟨j, other, hbegun, hj, hresets⟩
    · exact Or.inl hsome
    · exact Or.inr (Or.inl hzero)
    · exact Or.inr (Or.inr ⟨j, other, Or.inr hbegun, hj, hresets⟩)
  case h_1 c next hget =>
    dsimp only
    rcases horderly.ledger with ⟨n, hledger⟩
    rw [Store.counter_of_counts p.store n hledger.counts] at hroom
    have hfollows := h.followsUp i _ hget
    have hlater := followsUp_set p begun i h _ (hfollows.2 (p.store.exec c).1)
    have hstanding := horderly.standing i _ hget
    generalize hprocess : Program.call c next = process at hstanding
    generalize hi : held i = holds at hstanding
    cases hstanding with
    | fresh use =>
      -- The id that is taken is reserved.
      rw [program_allocate] at hprocess
      cases hprocess
      rcases hledger.reservations with ⟨reserved, hres⟩
      have hexec := Store.exec_nextId p.store n reserved hledger.counts hroom hres
      refine ⟨?_, hlater, Or.inl ⟨Number.writeNatural (n + 1), .reserved, ?_⟩⟩
      · rw [hexec]
        exact Store.populated_putHash _ (Store.populated_counter _ h.populated _) _
          Store.own_reservationKey _
      · rw [hexec]
        exact (Store.holds_withNextId p.store n reserved hres _ _).mpr (Or.inl ⟨rfl, rfl⟩)
    | holding use id =>
      rcases use_call use id c next hprocess.symm with ⟨hcall, -⟩
      rcases Store.exec_use p.store n id use c hledger h.populated (horderly.reserved i id hi)
        hcall with ⟨hpopulated, ⟨answer, hanswer⟩, hholds⟩
      refine ⟨hpopulated, hlater, ?_⟩
      by_cases hrelease : use = .release
      · -- What follows the release is the reset.
        subst hrelease
        cases hcall
        refine Or.inr (Or.inr ⟨i, _, Or.inl rfl,
          List.getElem?_set_self (List.getElem?_eq_some_iff.mp hget).1, ?_⟩)
        rw [hanswer]
        exact hfollows.1 trivial answer
      · exact Or.inl (hholds hrelease)
    | sparing _ hsparing =>
      subst hprocess
      have hpopulated := Store.populated_exec_sparing p.store n hledger h.populated c hsparing.1
      exact ⟨hpopulated, hlater, settled_sparing p begun i h n hledger c next hget hsparing.1⟩

end Step

/-- Every schedule keeps a pool orderly and prompt. -/
theorem prompt_run (p : Pool) (held : Nat → Option Nat) (begun : Nat → Prop) (schedule : List Nat)
    (horderly : p.Orderly held) (h : p.Prompt begun)
    (hroom : ∀ k, (p.run (schedule.take k)).store.counter < Number.maxWord) :
    (∃ held', (p.run schedule).Orderly held') ∧
      (p.run schedule).Prompt fun j => j ∈ schedule ∨ begun j := by
  induction schedule generalizing p held begun with
  | nil =>
    refine ⟨⟨held, horderly⟩, h.populated, h.followsUp, ?_⟩
    rcases h.settled with hsome | hzero | ⟨j, process, hbegun, hj, hresets⟩
    · exact Or.inl hsome
    · exact Or.inr (Or.inl hzero)
    · exact Or.inr (Or.inr ⟨j, process, Or.inr hbegun, hj, hresets⟩)
  | cons i rest ih =>
    rcases orderly_step p held i horderly (hroom 0) with ⟨held', hstep⟩
    have hprompt := prompt_step p begun i held horderly h (hroom 0)
    rcases ih (p.step i) held' _ hstep hprompt fun k => hroom (k + 1) with ⟨hlast, hrest⟩
    refine ⟨hlast, hrest.populated, hrest.followsUp, ?_⟩
    rcases hrest.settled with hsome | hzero | ⟨j, process, hbegun, hj, hresets⟩
    · exact Or.inl hsome
    · exact Or.inr (Or.inl hzero)
    -- Who owes a reset has had a turn, now or before.
    · refine Or.inr (Or.inr ⟨j, process, ?_, hj, hresets⟩)
      rcases hbegun with hmem | rfl | hbegun
      · exact Or.inl (List.mem_cons_of_mem i hmem)
      · exact Or.inl List.mem_cons_self
      · exact Or.inr hbegun

/-! ### Callers that rest -/

/-- A caller has no call in progress: it has not begun, or it has taken its id and not begun to make
    use of it, or it has come to its end. -/
def Resting (callers : List Caller) (schedule : List Nat) (i : Nat) : Prop :=
  i ∉ schedule ∨ (schedule.count i = 1 ∧ ∃ use, callers[i]? = some (.allocate use)) ∨
    ∃ result, ((start callers).run schedule).processes[i]? = some (.done result)

theorem length_run (p : Pool) (schedule : List Nat) :
    (p.run schedule).processes.length = p.processes.length := by
  induction schedule generalizing p with
  | nil => rfl
  | cons i rest ih =>
    refine (ih (p.step i)).trans ?_
    rw [step]
    split
    · exact List.length_set
    · rfl

theorem processes_step_of_ne (p : Pool) (i j : Nat) (h : j ≠ i) :
    (p.step i).processes[j]? = p.processes[j]? := by
  rw [step]
  split
  · exact List.getElem?_set_ne (Ne.symm h)
  · rfl

theorem processes_run_of_not_mem (p : Pool) (schedule : List Nat) (i : Nat) (h : i ∉ schedule) :
    (p.run schedule).processes[i]? = p.processes[i]? := by
  induction schedule generalizing p with
  | nil => rfl
  | cons j rest ih =>
    rw [List.mem_cons, not_or] at h
    exact (ih (p.step j) h.2).trans (processes_step_of_ne p j i h.1)

/-- A caller that has made one call goes on with some reply to it. -/
theorem processes_run_of_count_one (p : Pool) (schedule : List Nat) (i : Nat) (c : Store.Call)
    (next : Except StoreError c.Answer → Process) (hget : p.processes[i]? = some (.call c next))
    (h : schedule.count i = 1) :
    ∃ reply, (p.run schedule).processes[i]? = some (next reply) := by
  induction schedule generalizing p with
  | nil => exact nomatch h
  | cons j rest ih =>
    by_cases hj : j = i
    · subst hj
      have hrest : j ∉ rest := by
        rw [List.count_cons_self] at h
        exact List.count_eq_zero.mp (by omega)
      refine ⟨(p.store.exec c).1, ?_⟩
      rw [run, List.foldl_cons, ← run, processes_run_of_not_mem _ rest j hrest, step, hget]
      exact List.getElem?_set_self (List.getElem?_eq_some_iff.mp hget).1
    · rw [List.count_cons_of_ne hj] at h
      exact ih (p.step j) ((processes_step_of_ne p j i (Ne.symm hj)).trans hget) h

/-- A caller that has an id, and one that has come to its end, do not set the counter back next. -/
theorem not_resets_use (use : Use) (id : Nat) : ¬ (use.program id).run.Resets := by
  intro h
  cases use with
  | putStatic targetId entry => rcases h with h | ⟨⟨_, _, h⟩, -⟩ <;> exact nomatch h
  | putDynamic record => rcases h with h | ⟨⟨_, _, h⟩, -⟩ <;> exact nomatch h
  | release =>
    rcases h with h | ⟨⟨targetId, _, h⟩, -⟩
    · exact nomatch h
    · -- The reservations are no pipeline.
      injection h with h
      injection h with h
      injection h with h
      exact pipelineKey_ne_reservationKey targetId h.symm
  | keep => exact h

/-- A caller that rests owes no reset, if it has begun. -/
theorem not_resets_of_resting (callers : List Caller) (schedule : List Nat) (i : Nat)
    (h : Resting callers schedule i) (hmem : i ∈ schedule) (process : Process)
    (hget : ((start callers).run schedule).processes[i]? = some process) : ¬ process.Resets := by
  rcases h with hnot | ⟨hcount, use, huse⟩ | ⟨result, hdone⟩
  · exact absurd hmem hnot
  · have hstart : (start callers).processes[i]? =
        some (.call nextIdCall (afterNextId use)) := by
      rw [start, List.getElem?_map, huse, Option.map_some, program_allocate]
    rcases processes_run_of_count_one _ schedule i _ _ hstart hcount with ⟨reply, hreply⟩
    rw [hget] at hreply
    cases hreply
    cases reply with
    | error e => exact id
    | ok id => exact not_resets_use (use id) id
  · rw [hget] at hdone
    cases hdone
    exact id

end Pool

/-! ### Stores in which nothing is left to do -/

/-- The counter stands at zero exactly if nothing carries an id, so that the next id is one; and
    what is not there can be removed without a trace. -/
structure Store.Settled (s : Store) : Prop where
  vacant : s.idsInUse = [] →
    (s.get? counterKey = none ∨ s.get? counterKey = some (.scalar "0")) ∧
      (s.exec nextIdCall).1 = .ok (1 : Nat)
  occupied : s.idsInUse ≠ [] →
    ∃ n, 1 ≤ n ∧ s.get? counterKey = some (.scalar (Number.writeNatural n))
  noEntry : ∀ targetId id, s.field? (pipelineKey targetId) (Number.writeNatural id) = none →
    on (deleteStatic targetId id) s = (.ok false, s)
  noRecord : ∀ id, s.get? (PolicyRecord.storeKey id) = none →
    on (deleteDynamic id) s = (.ok false, s)
  noReservation : ∀ id, s.field? reservationKey (Number.writeNatural id) = none →
    on (releaseId id) s = (.ok (), s)

namespace Store

section Settled

variable (s : Store) (n : Nat) (hledger : s.Ledger n) (h : s.Populated)
  (hsettled : (∃ text place, s.Holds text place) ∨ s.Counts counterKey 0)

include hledger h hsettled

/-- The end of a removal by which nothing was removed. -/
theorem on_discard_resetIfVacant : on (discard Registry.resetIfVacant) s = (.ok (), s) := by
  have hsame := exec_reset_of_settled s n h hledger.counts hsettled
  rcases (exec_reset s n (telling_of_populated s h) hledger.counts).2.2 with ⟨done, hdone⟩
  have hreset : on Registry.resetIfVacant s = (.ok done, (s.exec resetCall).2) :=
    on_ask_ok resetCall s done hdone
  rw [on_discard, hreset, hsame]
  rfl

theorem on_deleteStatic_of_none (targetId : String) (id : Nat)
    (hnone : s.field? (pipelineKey targetId) (Number.writeNatural id) = none) :
    on (deleteStatic targetId id) s = (.ok false, s) := by
  rcases hledger.pipelines targetId with ⟨fields, hfields⟩
  have hask : on (ask (.getField (pipelineKey targetId) (Number.writeNatural id))) s =
      (.ok none, s) := by
    refine on_ask_ok _ s _ ?_
    rw [exec, hfields, ← hnone, field?_of_hashAt s _ _ fields hfields]
    rfl
  refine (on_bind_ok _ _ s s _ hask).trans ?_
  exact on_bind_ok _ _ s s () (on_discard_resetIfVacant s n hledger h hsettled)

theorem on_deleteDynamic_of_none (id : Nat) (hnone : s.get? (PolicyRecord.storeKey id) = none) :
    on (deleteDynamic id) s = (.ok false, s) := by
  have hask : on (ask (.contains (PolicyRecord.storeKey id))) s = (.ok false, s) := by
    refine on_ask_ok _ s _ ?_
    rw [exec, Dict.contains, hnone]
    rfl
  refine (on_bind_ok _ _ s s _ hask).trans ?_
  exact on_bind_ok _ _ s s () (on_discard_resetIfVacant s n hledger h hsettled)

theorem on_releaseId_of_none (id : Nat)
    (hnone : s.field? reservationKey (Number.writeNatural id) = none) :
    on (releaseId id) s = (.ok (), s) := by
  rcases hledger.reservations with ⟨reserved, hres⟩
  rw [field?_of_hashAt s _ _ reserved hres] at hnone
  -- Taking away a field that is not there gives the same hash, and it is put where it was.
  have herase : reserved.erase (Number.writeNatural id) = reserved := by
    refine Dict.ext_get? _ _ fun name => ?_
    rw [Dict.get?_erase]
    split
    · rename_i hname
      rw [hname, hnone]
    · rfl
  have hput : s.putHash reservationKey reserved = s := by
    refine Dict.ext_get? _ _ fun key => ?_
    rw [get?_putHash]
    split
    · rename_i hkey
      subst hkey
      rw [hashAt] at hres
      cases hget : s.get? reservationKey with
      | none =>
        rw [hget] at hres
        cases hres
        rfl
      | some value =>
        rcases h reservationKey value counterKey_ne_reservationKey.symm hget with
          ⟨-, fields, rfl, hfields⟩
        rw [hget] at hres
        cases hres
        rw [hfields, if_neg (by simp)]
    · rfl
  have hmutate := mutate_deleteField s reservationKey (Number.writeNatural id) reserved hres
  rw [herase, hput] at hmutate
  refine (on_bind_ok _ _ s s _ (on_change _ s s hmutate)).trans ?_
  exact on_discard_resetIfVacant s n hledger h hsettled

/-- What holds where nothing is left to do. -/
theorem settled_of_ledger : s.Settled where
  vacant := by
    intro hnone
    -- No id is in use, so that the counter has been set back.
    have hzero : s.Counts counterKey 0 := by
      rcases hsettled with ⟨text, place, hheld⟩ | hzero
      · have hmem := (mem_idsInUse_iff s text).mpr ⟨place, hheld⟩
        rw [hnone] at hmem
        exact absurd hmem List.not_mem_nil
      · exact hzero
    rcases hledger.reservations with ⟨reserved, hres⟩
    refine ⟨?_, congrArg Prod.fst (exec_nextId s 0 reserved hzero (by decide) hres)⟩
    rcases hzero with ⟨-, hget | ⟨hget, -⟩⟩
    · exact Or.inr hget
    · exact Or.inl hget
  occupied := by
    intro hsome
    rcases List.exists_mem_of_ne_nil _ hsome with ⟨text, hmem⟩
    rcases (mem_idsInUse_iff s text).mp hmem with ⟨place, hheld⟩
    rcases hledger.bounded text place hheld with ⟨id, -, hpos, hle⟩
    refine ⟨n, by omega, ?_⟩
    -- An id in use is one at least, so that the counter is not at zero.
    rcases hledger.counts with ⟨-, hget | ⟨-, hzero⟩⟩
    · exact hget
    · omega
  noEntry := on_deleteStatic_of_none s n hledger h hsettled
  noRecord := on_deleteDynamic_of_none s n hledger h hsettled
  noReservation := on_releaseId_of_none s n hledger h hsettled

end Settled

end Store

namespace Pool

/-- In every state that callers reach on an empty store, whatever the order of their calls, nothing
    is left to do if none of them is in the middle of something: the counter stands at zero exactly
    if no id is in use, and removing what is not there changes nothing. -/
theorem settled_of_run (callers : List Caller) (schedule : List Nat)
    (hroom : ∀ k, ((start callers).run (schedule.take k)).store.counter < Number.maxWord)
    (hrest : ∀ i < callers.length, Resting callers schedule i) :
    ((start callers).run schedule).store.Settled := by
  rcases prompt_run (start callers) _ _ schedule (orderly_start callers) (prompt_start callers)
    hroom with ⟨⟨held, horderly⟩, hprompt⟩
  rcases horderly.ledger with ⟨n, hledger⟩
  refine Store.settled_of_ledger _ n hledger hprompt.populated ?_
  rcases hprompt.settled with hsome | hzero | ⟨i, process, hbegun, hget, hresets⟩
  · exact Or.inl hsome
  · exact Or.inr hzero
  · -- A reset that is still owed would be owed by a caller in the middle of something.
    have hlt : i < callers.length := by
      have hlength := (List.getElem?_eq_some_iff.mp hget).1
      rwa [length_run, start, List.length_map] at hlength
    have hmem : i ∈ schedule := hbegun.resolve_right id
    exact absurd hresets (not_resets_of_resting callers schedule i (hrest i hlt) hmem process hget)

/-- A caller that gives its id back, one that stores an entry, and one that deletes the entry. -/
def lastOneOut : List Caller :=
  [.allocate fun _ => .release,
   .allocate fun id => .putStatic "t" { policyId := id, filterName := "f", executionOrder := id },
   .deleteStatic "t" 2]

/-- The reset of the first caller comes too early, and that of the last one sets the counter
    back. -/
theorem settled_of_run_last_one_out :
    (∀ k, ((start lastOneOut).run ([0, 1, 0, 1, 0, 2, 2, 2].take k)).store.counter <
        Number.maxWord) ∧
      (∀ i < lastOneOut.length, Resting lastOneOut [0, 1, 0, 1, 0, 2, 2, 2] i) ∧
      ((start lastOneOut).run [0, 1, 0, 1, 0]).store.counter = 2 ∧
      ((start lastOneOut).run [0, 1, 0, 1, 0, 2, 2, 2]).store.idsInUse = [] ∧
      ((start lastOneOut).run [0, 1, 0, 1, 0, 2, 2, 2]).store.Settled := by
  have hprefixes : ∀ k ≤ 8, ((start lastOneOut).run
      ([0, 1, 0, 1, 0, 2, 2, 2].take k)).store.counter < Number.maxWord := by decide +kernel
  have hroom : ∀ k, ((start lastOneOut).run
      ([0, 1, 0, 1, 0, 2, 2, 2].take k)).store.counter < Number.maxWord := by
    intro k
    by_cases hk : k ≤ 8
    · exact hprefixes k hk
    · rw [List.take_of_length_le (by simp; omega)]
      exact hprefixes 8 (Nat.le_refl 8)
  have hrest : ∀ i < lastOneOut.length, Resting lastOneOut [0, 1, 0, 1, 0, 2, 2, 2] i := by
    intro i hi
    match i, hi with
    | 0, _ => exact Or.inr (Or.inr ⟨.ok (), rfl⟩)
    | 1, _ => exact Or.inr (Or.inr ⟨.ok (), rfl⟩)
    | 2, _ => exact Or.inr (Or.inr ⟨.ok (), rfl⟩)
  exact ⟨hroom, hrest, by decide +kernel, by decide +kernel,
    settled_of_run lastOneOut _ hroom hrest⟩

end Pool

end StoragePolicy
