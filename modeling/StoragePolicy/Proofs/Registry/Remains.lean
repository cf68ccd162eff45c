import StoragePolicy.Proofs.Registry.InOrder
import StoragePolicy.Proofs.Registry.Labels
import StoragePolicy.Proofs.Registry.Vacancy

/-!
# What a deletion leaves in the store

When a filter is taken out of a pipeline, one pipeline changes and possibly the counter, and nothing
else. Whether the counter is set back is decided by the keys that are left, and what is decided by
keys is meant to be decided by entries, records and reservations. The two come to the same as long
as nothing stands under these keys but hashes with fields. No call of the registry changes that:
where it puts a hash it puts none that is empty, and all else that it puts stands elsewhere.

## Main definitions

* `Store.Call.Neat`: Calls that put nothing but hashes where the reset looks.
* `Store.Gains`: What a new entry does to the store.
* `Store.Sheds`: What taking a filter out of a pipeline does to the store.

## Theorems

* `telling_exec`: Neat calls leave nothing else where the reset looks.
* `counter_reset`, `counter_left`: What the reset does to the counter.
* `sheds_deleteMatching`: What is left when a filter has been taken out.
-/

namespace StoragePolicy

open Registry

/-- Changes that put nothing but hashes where the reset looks. -/
def Mutation.Neat : Mutation → Prop
  | .setField key _ _ | .deleteField key _ => Noticed key → Own key
  | .delete _ => True
  | m => ¬ Noticed m.key

/-- Calls that put nothing but hashes where the reset looks. -/
def Store.Call.Neat : Store.Call → Prop
  | .apply changes => ∀ m ∈ changes, m.Neat
  | .updateField key _ _ => Noticed key → Own key
  | .incrementReserving counter reservations =>
    ¬ Noticed counter ∧ (Noticed reservations → Own reservations)
  | c => ∀ key ∈ c.changed, ¬ Noticed key

namespace Store

/-! ### Neat calls -/

theorem telling_of_noticed (s t : Store) (h : s.Telling)
    (hsame : ∀ key, Noticed key → t.get? key = s.get? key) : t.Telling := by
  intro key value hkey hvalue
  rw [hsame key hkey] at hvalue
  exact h key value hkey hvalue

theorem telling_putHash (s : Store) (h : s.Telling) (key : String) (hkey : Noticed key → Own key)
    (fields : Dict String String) : (s.putHash key fields).Telling := by
  intro other value hother hvalue
  rcases get?_putHash_cases s key other fields value hvalue with ⟨rfl, rfl, hempty⟩ | ⟨-, hold⟩
  · exact ⟨hkey hother, fields, rfl, hempty⟩
  · exact h other value hother hold

theorem telling_mutate (s t : Store) (m : Mutation) (hm : m.Neat) (hmutate : s.mutate m = .ok t)
    (h : s.Telling) : t.Telling := by
  -- Where the key is none of which notice is taken there is nothing to show.
  have hother : ¬ Noticed m.key → t.Telling := fun hne =>
    telling_of_noticed s t h fun key hkey => get?_mutate s t m key hmutate fun heq =>
      hne (heq ▸ hkey)
  cases m with
  | setField key name value =>
    rcases (Outcome.bind_eq_ok _ _ _).mp hmutate with ⟨fields, -, ht⟩
    cases ht
    exact telling_putHash s h key hm _
  | deleteField key name =>
    rcases (Outcome.bind_eq_ok _ _ _).mp hmutate with ⟨fields, -, ht⟩
    cases ht
    exact telling_putHash s h key hm _
  | delete key =>
    cases hmutate
    intro other value hnoticed hvalue
    rw [Dict.get?_erase] at hvalue
    split at hvalue
    · cases hvalue
    · exact h other value hnoticed hvalue
  | set key value => exact hother hm
  | append key values => exact hother hm
  | removeItem key value => exact hother hm

/-- Neat calls leave nothing but hashes with fields where the reset looks. -/
theorem telling_exec (s : Store) (c : Call) (hc : c.Neat) (h : s.Telling) :
    (s.exec c).2.Telling := by
  have hother : (∀ key ∈ c.changed, ¬ Noticed key) → (s.exec c).2.Telling := fun hne =>
    telling_of_noticed s _ h fun key hkey => get?_exec s c key fun hmem => hne key hmem hkey
  cases c with
  | apply changes =>
    exact applyBatch_invariant Store.Telling s changes
      (fun m hm t u hmutate => telling_mutate t u m (hc m hm) hmutate) h
  | updateField key name value =>
    simp only [exec, updateField]
    split
    · exact h
    · split
      · exact telling_putHash s h key hc _
      · exact h
  | incrementReserving counter reservations =>
    simp only [exec, incrementReserving]
    split
    · exact h
    · split
      · exact h
      · -- The number is counted even if the reservation is then refused.
        rename_i n t hcounted
        have ht : t.Telling := telling_of_noticed s t h fun key hkey =>
          get?_increment s t counter key n hcounted fun heq => hc.1 (heq ▸ hkey)
        split
        · exact ht
        · rename_i t' hm
          exact telling_mutate t t' (.setField reservations (Number.writeNatural n) "") hc.2 hm ht
  | _ => exact hother hc

theorem neat_of_sparing (c : Call) (h : c.Sparing) : c.Neat := by
  cases c with
  | increment key => exact False.elim h
  | incrementReserving counter reservations => exact False.elim h
  | resetIfVacant counter stems =>
    rcases h with ⟨rfl, -⟩
    intro key hmem hkey
    exact noticed_ne_counterKey key hkey (List.mem_singleton.mp hmem)
  | updateField key name value =>
    rcases h with ⟨id, rfl⟩
    exact fun _ => own_storeKey id
  | apply changes =>
    rcases sparing_apply changes h with ⟨targetId, name, rfl⟩ | ⟨id, rfl⟩
    · intro m hm
      rw [List.mem_singleton.mp hm]
      exact fun _ => own_pipelineKey targetId
    · intro m hm
      rw [List.mem_singleton.mp hm]
      trivial
  | _ => exact fun key hmem => absurd hmem List.not_mem_nil

/-- The reset leaves the counter alone while an id is in use, and else sets it to zero, if there is
    one. -/
theorem counter_reset (s : Store) (n : Nat) (h : s.Telling) (hcounts : s.Counts counterKey n) :
    ((∃ text place, s.Holds text place) →
        (s.exec resetCall).2.get? counterKey = s.get? counterKey) ∧
      ((¬ ∃ text place, s.Holds text place) →
        (s.exec resetCall).2.get? counterKey =
          (s.get? counterKey).map fun _ => .scalar "0") := by
  refine ⟨fun hheld => by rw [(exec_reset s n h hcounts).1 hheld], fun hvacant => ?_⟩
  have hnone : (s.keys.any fun key => idStems.any fun stem =>
      stem.toList.isPrefixOf key.toList) = false := by
    rw [Bool.eq_false_iff]
    exact fun hany => hvacant (holds_of_any_idStems s h hany)
  simp only [exec, resetIfVacant, hnone, Bool.false_eq_true, if_false]
  rcases hcounts with ⟨-, hget | ⟨hget, -⟩⟩
  · rw [hget]
    exact (Dict.get?_insert _ _ _ _).trans (if_pos rfl)
  · rw [hget]
    exact hget

/-! ### What a new entry does, and what a deletion does -/

/-- An entry has been stored under the id after the counter, where nothing stood, and the counter
    goes with it. Nothing else has changed. -/
structure Gains (before after : Store) (targetId : String) (n : Nat) (entry : StaticEntry) :
    Prop where
  stood : before.Counts counterKey n
  counter : after.get? counterKey = some (.scalar (Number.writeNatural (n + 1)))
  vacant : before.field? (pipelineKey targetId) (Number.writeNatural (n + 1)) = none
  field : after.field? (pipelineKey targetId) (Number.writeNatural (n + 1)) = some entry.toText
  entry : after.entryAt? targetId (Number.writeNatural (n + 1)) = some entry
  fields : ∀ name, name ≠ Number.writeNatural (n + 1) →
    after.field? (pipelineKey targetId) name = before.field? (pipelineKey targetId) name
  others : ∀ key, key ≠ counterKey → key ≠ pipelineKey targetId →
    after.get? key = before.get? key

/-- The entries of a filter have been taken out of a pipeline, and nothing else of it; a pipeline
    without entries is not there any more. Their ids are given in execution order. The counter has
    been set to zero if that has left no id in use, and nothing else has changed. -/
structure Sheds (before after : Store) (targetId filterName : String) (ids : List Nat) :
    Prop where
  lost : ∀ name e, before.entryAt? targetId name = some e → e.filterName = filterName →
    after.field? (pipelineKey targetId) name = none
  kept : ∀ name, (∀ e, before.entryAt? targetId name = some e → e.filterName ≠ filterName) →
    after.field? (pipelineKey targetId) name = before.field? (pipelineKey targetId) name
  vanished : (∀ name, after.field? (pipelineKey targetId) name = none) →
    after.get? (pipelineKey targetId) = none
  given : ∃ entries : List StaticEntry, ids = entries.map StaticEntry.policyId ∧
    entries.Pairwise (fun a b => a.executionOrder ≤ b.executionOrder) ∧
    ∀ name e, e ∈ entries ∧ name = Number.writeNatural e.policyId ↔
      before.entryAt? targetId name = some e ∧ e.filterName = filterName
  once : ids.Nodup
  inUse : (∃ text place, after.Holds text place) →
    after.get? counterKey = before.get? counterKey
  vacated : (¬ ∃ text place, after.Holds text place) →
    after.get? counterKey = (before.get? counterKey).map fun _ => .scalar "0"
  others : ∀ key, key ≠ counterKey → key ≠ pipelineKey targetId →
    after.get? key = before.get? key

/-- A key of which the reset takes notice and whose hash has no fields is not there. -/
theorem get?_of_telling (s : Store) (h : s.Telling) (key : String) (hkey : Noticed key)
    (hnone : ∀ name, s.field? key name = none) : s.get? key = none := by
  cases hget : s.get? key with
  | none => rfl
  | some value =>
    rcases h key value hkey hget with ⟨-, fields, rfl, hfields⟩
    cases hentries : fields.entries with
    | nil => simp [Dict.isEmpty, hentries] at hfields
    | cons e rest =>
      have he : fields.get? e.1 = some e.2 := (Dict.mem_entries_iff fields e.1 e.2).mp (by
        rw [hentries]
        exact List.mem_cons_self)
      have hfield := hnone e.1
      rw [field?, hget] at hfield
      simp only [he] at hfield
      cases hfield

theorem noticed_pipelineKey (targetId : String) : Noticed (pipelineKey targetId) :=
  ⟨pipelineStem, by simp [idStems], targetId, rfl⟩

theorem noticed_reservationKey : Noticed reservationKey :=
  ⟨reservationKey, by simp [idStems], "", String.append_empty.symm⟩

/-! ### The two steps of a deletion -/

/-- The deletion of fields of a pipeline leaves everything else alone. -/
theorem aside_deleteFields (d d' : Store) (htelling : d.Telling) (targetId : String)
    (ids : List Nat) (hdelete : on (deleteFields (pipelineKey targetId) ids) d = (.ok (), d')) :
    (∀ key, key ≠ pipelineKey targetId → d'.get? key = d.get? key) ∧ d'.Telling := by
  constructor
  · intro key hkey
    have hsame := get?_on (deleteFields (pipelineKey targetId) ids) key
      (makes_deleteFields _ _ _ fun name hmem => hkey (List.mem_singleton.mp hmem)) d
    rw [hdelete] at hsame
    exact hsame
  · have hneat : (deleteFields (pipelineKey targetId) ids).run.Makes Call.Neat :=
      makes_deleteFields _ _ _ fun name => neat_of_sparing _ ⟨targetId, rfl⟩
    have hall := on_invariant Call.Neat Telling (fun c d hc hd => telling_exec d c hc hd) _ hneat d
      htelling
    rw [hdelete] at hall
    exact hall

/-- The reset changes no key but the counter. -/
theorem get?_reset (d : Store) (key : String) (hkey : key ≠ counterKey) :
    (d.exec resetCall).2.get? key = d.get? key :=
  get?_exec d resetCall key fun hmem => hkey (List.mem_singleton.mp hmem)

/-- What the reset does to the counter, said of the store that it leaves. -/
theorem counter_left (d : Store) (n : Nat) (h : d.Telling) (hcounts : d.Counts counterKey n) :
    ((∃ text place, (d.exec resetCall).2.Holds text place) →
        (d.exec resetCall).2.get? counterKey = d.get? counterKey) ∧
      ((¬ ∃ text place, (d.exec resetCall).2.Holds text place) →
        (d.exec resetCall).2.get? counterKey = (d.get? counterKey).map fun _ => .scalar "0") := by
  have hholds : ∀ text place, (d.exec resetCall).2.Holds text place ↔ d.Holds text place :=
    fun text place => holds_congr _ _ text place (get?_reset d)
  simp only [hholds]
  exact counter_reset d n h hcounts

/-- Taking a filter out of a labelled pipeline leaves all else as it was, and sets the counter back
    if nothing else is left. -/
theorem sheds_deleteMatching (d : Store) (n : Nat) (h : d.Ledger n) (hlegible : d.Legible)
    (hlabelled : d.Labelled) (htelling : d.Telling) (targetId filterName : String) :
    ∃ ids, (on (deleteMatching targetId filterName) d).1 = .ok ids ∧
      d.Sheds (on (deleteMatching targetId filterName) d).2 targetId filterName ids := by
  rcases takenOut_deleteMatching d hlegible hlabelled n h targetId filterName with
    ⟨ids, hdone, htaken⟩
  rcases h.pipelines targetId with ⟨fields, hfields⟩
  rcases on_deleteMatching_steps d n h hlegible targetId filterName fields hfields with
    ⟨entries, removed, d', hread, hremoved, hdelete, hleft, hrun⟩
  rw [hrun] at hdone htaken ⊢
  cases hdone
  rcases aside_deleteFields d d' htelling targetId ids hdelete with ⟨hother, htelling'⟩
  have hcounter : d'.get? counterKey = d.get? counterKey :=
    hother counterKey (pipelineKey_ne_counterKey targetId).symm
  have hcounts := counter_left d' n htelling' (counts_congr d d' _ n hcounter.symm h.counts)
  rw [hcounter] at hcounts
  -- What is left of the fields.
  have hfield : ∀ name, (d'.exec resetCall).2.field? (pipelineKey targetId) name =
      if ∃ id ∈ ids, name = Number.writeNatural id then none
      else d.field? (pipelineKey targetId) name := by
    intro name
    rw [field?_congr _ d' _ name (get?_reset d' _ (pipelineKey_ne_counterKey targetId)),
      field?_of_hashAt d' _ name _ hleft, Dict.get?_eraseAll Number.writeNatural,
      field?_of_hashAt d _ name fields hfields]
  refine ⟨ids, rfl, ?_⟩
  refine ⟨fun name e he hfilter => ?_, fun name hkept => ?_, fun hnone => ?_, ?_, htaken.once,
    hcounts.1, hcounts.2,
    fun key hkey hpipeline => (get?_reset d' key hkey).trans (hother key hpipeline)⟩
  · rw [hfield, if_pos ((htaken.stood name).mpr ⟨e, he, hfilter⟩)]
  · rw [hfield, if_neg]
    intro hstood
    rcases (htaken.stood name).mp hstood with ⟨e, he, hfilter⟩
    exact hkept e he hfilter
  · refine get?_of_telling _ ?_ _ (noticed_pipelineKey targetId) hnone
    exact telling_exec d' resetCall (neat_of_sparing _ ⟨rfl, rfl⟩) htelling'
  · have hmem := mem_entries_iff d hlegible hlabelled targetId fields hfields entries hread
    have hsorted : (inOrder StaticEntry.executionOrder entries).Perm entries := perm_inOrder _ _
    refine ⟨(inOrder StaticEntry.executionOrder entries).filter
      fun e => e.filterName = filterName, hremoved, ?_, fun name e => ?_⟩
    · exact (pairwise_inOrder StaticEntry.executionOrder entries).filter _
    · rw [List.mem_filter, hsorted.mem_iff, hmem, decide_eq_true_eq]
      constructor
      · rintro ⟨⟨he, hfilter⟩, hname⟩
        exact ⟨⟨he, hname⟩, hfilter⟩
      · rintro ⟨⟨he, hname⟩, hfilter⟩
        exact ⟨⟨he, hfilter⟩, hname⟩

end Store

end StoragePolicy
