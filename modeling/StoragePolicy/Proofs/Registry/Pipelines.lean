import StoragePolicy.Proofs.Policy.Static
import StoragePolicy.Proofs.Registry.Sparing
import StoragePolicy.Proofs.Store.Atomic

/-!
# Pipelines that can be read

To take a filter out of a pipeline all entries of the pipeline are read, and a text that is no entry
would make that fail. But the registry only ever puts texts of entries into pipelines, and only ids
and numbers that can be held into entries. So all pipelines can be read at any time, and taking
filters out of them does not fail.

## Main definitions

* `Store.Legible`: All texts in pipelines are those of entries.
* `Store.Call.Tidy`: Calls that put nothing else into pipelines.
* `Store.Fitting`, `Store.Call.Fitting`: The same for any condition on texts and their names.

## Theorems

* `fitting_exec`, `legible_exec`: Tidy calls keep pipelines legible, and calls that fit keep what
  fits.
* `storable_patchedEntry`: What an update stores is such an entry.
* `on_updateStatic`: What an update does.
* `on_deleteMatching`: A filter can be taken out of a legible pipeline.
-/

namespace StoragePolicy

open Registry

/-- All texts in pipelines are those of entries whose numbers can be held. -/
def Store.Legible (d : Store) : Prop :=
  ∀ targetId name text, d.field? (pipelineKey targetId) name = some text →
    ∃ e : StaticEntry, e.Storable ∧ text = e.toText

/-- Changes that put nothing but entries into pipelines. -/
def Mutation.Tidy : Mutation → Prop
  | .setField key _ text =>
      (∀ targetId, pipelineKey targetId ≠ key) ∨ ∃ e : StaticEntry, e.Storable ∧ text = e.toText
  | .deleteField _ _ => True
  | m => ∀ targetId, pipelineKey targetId ≠ m.key

/-- Calls that put nothing but entries into pipelines. -/
def Store.Call.Tidy : Store.Call → Prop
  | .apply changes => ∀ m ∈ changes, m.Tidy
  | c => ∀ targetId, pipelineKey targetId ∉ c.changed

/-- Pipelines in which every text fits the name under which it stands. -/
def Store.Fitting (fits : String → String → Prop) (d : Store) : Prop :=
  ∀ targetId name text, d.field? (pipelineKey targetId) name = some text → fits name text

/-- Changes that put nothing into pipelines but texts that fit their names. -/
def Mutation.Fitting (fits : String → String → Prop) : Mutation → Prop
  | .setField key name text => (∀ targetId, pipelineKey targetId ≠ key) ∨ fits name text
  | .deleteField _ _ => True
  | m => ∀ targetId, pipelineKey targetId ≠ m.key

/-- Calls that put nothing into pipelines but texts that fit their names. -/
def Store.Call.Fitting (fits : String → String → Prop) : Store.Call → Prop
  | .apply changes => ∀ m ∈ changes, m.Fitting fits
  | c => ∀ targetId, pipelineKey targetId ∉ c.changed

namespace Store

/-! ### Calls that fit -/

section Fitting

variable (fits : String → String → Prop)

theorem fitting_congr (s t : Store)
    (h : ∀ targetId, t.get? (pipelineKey targetId) = s.get? (pipelineKey targetId))
    (hs : s.Fitting fits) : t.Fitting fits := by
  intro targetId name text htext
  rw [field?_congr t s _ name (h targetId)] at htext
  exact hs targetId name text htext

/-- A hash may be put back with texts added to it that fit. -/
theorem fitting_putHash (s : Store) (hs : s.Fitting fits) (key : String)
    (fields : Dict String String) (hfields : s.hashAt key = .ok fields)
    (changed : Dict String String)
    (hchanged : ∀ name text, changed.get? name = some text → fields.get? name = some text ∨
      fits name text) : (s.putHash key changed).Fitting fits := by
  intro targetId name text htext
  rw [field?_putHash] at htext
  split at htext
  · rename_i hkey
    rcases hchanged name text htext with hold | hnew
    · refine hs targetId name text ?_
      rw [hkey, field?_of_hashAt s key name fields hfields]
      exact hold
    · exact hnew
  · exact hs targetId name text htext

theorem fitting_mutate (s t : Store) (m : Mutation) (hm : m.Fitting fits)
    (h : s.mutate m = .ok t) (hs : s.Fitting fits) : t.Fitting fits := by
  -- Only what is done to fields can be done to a pipeline.
  have hother : (∀ targetId, pipelineKey targetId ≠ m.key) → t.Fitting fits := fun hne =>
    fitting_congr fits s t (fun targetId => get?_mutate s t m _ h (hne targetId)) hs
  cases m with
  | set key value => exact hother hm
  | delete key => exact hother hm
  | append key values => exact hother hm
  | removeItem key value => exact hother hm
  | setField key name value =>
    rcases hm with hne | hfits
    · exact hother hne
    · rcases (Outcome.bind_eq_ok _ _ _).mp h with ⟨fields, hfields, ht⟩
      cases ht
      refine fitting_putHash fits s hs key fields hfields _ ?_
      intro other text htext
      rw [Dict.get?_insert] at htext
      split at htext
      · rename_i hname
        cases htext
        rw [hname]
        exact Or.inr hfits
      · exact Or.inl htext
  | deleteField key name =>
    rcases (Outcome.bind_eq_ok _ _ _).mp h with ⟨fields, hfields, ht⟩
    cases ht
    refine fitting_putHash fits s hs key fields hfields _ ?_
    intro other text htext
    rw [Dict.get?_erase] at htext
    split at htext
    · exact nomatch htext
    · exact Or.inl htext

end Fitting

/-- Calls that fit leave pipelines that fit. -/
theorem fitting_exec (fits : String → String → Prop) (d : Store) (c : Call) (h : c.Fitting fits)
    (hd : d.Fitting fits) : (d.exec c).2.Fitting fits := by
  have hother : (∀ targetId, pipelineKey targetId ∉ c.changed) → (d.exec c).2.Fitting fits :=
    fun hne => fitting_congr fits d _ (fun targetId => get?_exec d c _ (hne targetId)) hd
  cases c with
  | apply changes =>
    exact applyBatch_invariant (Store.Fitting fits) d changes
      (fun m hm t u hmutate => fitting_mutate fits t u m (h m hm) hmutate) hd
  | _ => exact hother h

/-- Tidy calls keep pipelines legible. -/
theorem legible_exec (d : Store) (c : Call) (h : c.Tidy) (hd : d.Legible) :
    (d.exec c).2.Legible :=
  fitting_exec (fun _ text => ∃ e : StaticEntry, e.Storable ∧ text = e.toText) d c h hd

end Store

namespace Registry

/-! ### Programs that fit -/

/-- Calls that put no id into use put nothing into pipelines either. -/
theorem fitting_of_sparing (fits : String → String → Prop) (c : Store.Call) (h : c.Sparing) :
    c.Fitting fits := by
  cases c with
  | get key => exact fun _ => List.not_mem_nil
  | getField key name => exact fun _ => List.not_mem_nil
  | getFields key => exact fun _ => List.not_mem_nil
  | getItems key => exact fun _ => List.not_mem_nil
  | contains key => exact fun _ => List.not_mem_nil
  | keys stem => exact fun _ => List.not_mem_nil
  | increment key => exact False.elim h
  | incrementReserving counter reservations => exact False.elim h
  | resetIfVacant counter stems =>
    rcases h with ⟨rfl, -⟩
    intro targetId hmem
    exact pipelineKey_ne_counterKey targetId (List.mem_singleton.mp hmem)
  | updateField key name value =>
    rcases h with ⟨id, rfl⟩
    intro targetId hmem
    exact recordKey_ne_pipelineKey _ targetId (List.mem_singleton.mp hmem).symm
  | apply changes =>
    -- A batch that spares ids takes a field out of a pipeline, or takes a record away.
    match changes, h with
    | [.deleteField _ _], _ =>
      intro m hm
      rw [List.mem_singleton.mp hm]
      trivial
    | [.delete _], ⟨id, rfl⟩ =>
      intro m hm
      rw [List.mem_singleton.mp hm]
      exact fun targetId heq => recordKey_ne_pipelineKey _ targetId heq.symm

theorem tidy_of_sparing (c : Store.Call) (h : c.Sparing) : c.Tidy :=
  fitting_of_sparing (fun _ text => ∃ e : StaticEntry, e.Storable ∧ text = e.toText) c h

theorem fitting_nextId (fits : String → String → Prop) : Store.Call.Fitting fits nextIdCall := by
  intro targetId hmem
  rcases List.mem_cons.mp hmem with h | hmem
  · exact pipelineKey_ne_counterKey targetId h
  · exact pipelineKey_ne_reservationKey targetId (List.mem_singleton.mp hmem)

theorem fitting_putStatic (fits : String → String → Prop) (targetId : String) (id : Nat)
    (e : StaticEntry) (h : fits (Number.writeNatural id) e.toText) :
    Store.Call.Fitting fits (putStaticCall targetId id e) := by
  intro m hm
  rcases List.mem_cons.mp hm with rfl | hm
  · exact Or.inr h
  · rw [List.mem_singleton.mp hm]
    trivial

theorem fitting_putDynamic (fits : String → String → Prop) (r : PolicyRecord) :
    Store.Call.Fitting fits (.apply (recordChanges r)) := by
  intro m hm
  rcases List.mem_append.mp hm with hm | hm
  · rcases List.mem_map.mp hm with ⟨field, -, rfl⟩
    exact Or.inl fun targetId heq => recordKey_ne_pipelineKey _ targetId heq.symm
  · rw [List.mem_singleton.mp hm]
    trivial

theorem fitting_release (fits : String → String → Prop) (id : Nat) :
    Store.Call.Fitting fits (.apply [release id]) := by
  intro m hm
  rw [List.mem_singleton.mp hm]
  trivial

theorem tidy_nextId : Store.Call.Tidy nextIdCall :=
  fitting_nextId fun _ text => ∃ e : StaticEntry, e.Storable ∧ text = e.toText

theorem tidy_putStatic (targetId : String) (id : Nat) (e : StaticEntry) (h : e.Storable) :
    Store.Call.Tidy (putStaticCall targetId id e) :=
  fitting_putStatic (fun _ text => ∃ e : StaticEntry, e.Storable ∧ text = e.toText) targetId id e
    ⟨e, h, rfl⟩

theorem tidy_putDynamic (r : PolicyRecord) : Store.Call.Tidy (.apply (recordChanges r)) :=
  fitting_putDynamic (fun _ text => ∃ e : StaticEntry, e.Storable ∧ text = e.toText) r

/-- What an update stores is an entry whose numbers can be held. -/
theorem storable_patchedEntry (key text : String) (patch : List (String × Json)) (e : StaticEntry)
    (h : patchedEntry key text patch = .ok e) : e.Storable := by
  rw [patchedEntry] at h
  split at h
  · exact nomatch h
  · split at h
    · rename_i hread
      cases h
      exact StaticEntry.storable_of_ofMembers? _ _ hread
    · exact nomatch h

/-- A program of tidy calls keeps pipelines legible. -/
theorem legible_on {α : Type} (p : Registry α) (hp : p.run.Makes Store.Call.Tidy) (d : Store)
    (hd : d.Legible) : (on p d).2.Legible :=
  on_invariant Store.Call.Tidy Store.Legible (fun c d hc hd => Store.legible_exec d c hc hd)
    p hp d hd

theorem makes_tidy_of_sparing {α : Type} (p : Registry α)
    (hp : p.run.Makes Store.Call.Sparing) : p.run.Makes Store.Call.Tidy :=
  Program.makes_mono _ _ p.run hp tidy_of_sparing

/-! ### Updating an entry -/

/-- An update reads a field and sets it. -/
theorem makes_updateStatic (kind : Store.Call → Prop) (targetId : String) (id : Nat)
    (patch : List (String × Json))
    (hget : kind (.getField (pipelineKey targetId) (Number.writeNatural id)))
    (hput : ∀ text,
      kind (.apply [.setField (pipelineKey targetId) (Number.writeNatural id) text])) :
    (updateStatic targetId id patch).run.Makes kind := by
  refine makes_bind _ _ _ (makes_ask _ _ hget) fun stored => ?_
  cases stored with
  | none => exact makes_throw _ _
  | some text =>
    refine makes_bind _ _ _ (makes_ofExcept _ _) fun entry => ?_
    exact makes_bind _ _ _ (makes_ask _ _ (hput entry.toText)) fun _ => makes_pure _ _

/-- An update reads an entry and puts the patched one in its place. -/
theorem on_updateStatic (targetId : String) (id : Nat) (patch : List (String × Json)) (d : Store)
    (fields : Dict String String) (hfields : d.hashAt (pipelineKey targetId) = .ok fields) :
    on (updateStatic targetId id patch) d =
      match fields.get? (Number.writeNatural id) with
      | none => (.error (.unknownEntry targetId id), d)
      | some text =>
        match patchedEntry (pipelineKey targetId) text patch with
        | .error e => (.error e, d)
        | .ok entry => (.ok entry, d.putHash (pipelineKey targetId)
            (fields.insert (Number.writeNatural id) entry.toText)) := by
  have hask := on_ask_getField d _ (Number.writeNatural id) fields hfields
  refine (on_bind_ok _ _ d d _ hask).trans ?_
  cases fields.get? (Number.writeNatural id) with
  | none => rfl
  | some text =>
    dsimp only
    rw [on_bind, on_ofExcept]
    cases patchedEntry (pipelineKey targetId) text patch with
    | error e => rfl
    | ok entry =>
      have hput := on_change _ d _
        (Store.mutate_setField d _ (Number.writeNatural id) entry.toText fields hfields)
      exact on_bind_ok _ _ _ _ _ hput

/-! ### Taking a filter out -/

section DeleteMatching

variable (d : Store)

/-- Texts of entries are read one by one. -/
theorem readEntries_of_storable (key : String) (texts : List String)
    (htexts : ∀ text ∈ texts, ∃ e : StaticEntry, e.Storable ∧ text = e.toText) :
    ∃ entries, List.Forall₂ (fun text e => StaticEntry.ofText? text = some e) texts entries ∧
      texts.mapM (readEntry key) = .ok entries := by
  induction texts with
  | nil => exact ⟨[], .nil, rfl⟩
  | cons text rest ih =>
    rcases htexts text List.mem_cons_self with ⟨e, he, rfl⟩
    rcases ih fun t ht => htexts t (List.mem_cons_of_mem _ ht) with ⟨entries, hentries, hall⟩
    have htext := StaticEntry.ofText?_toText e he
    rw [Outcome.mapM_eq_ok] at hall
    refine ⟨e :: entries, .cons htext hentries, (Outcome.mapM_eq_ok _ _ _).mpr (.cons ?_ hall)⟩
    rw [readEntry, htext]

/-- The entries of a legible pipeline are read. -/
theorem on_entriesOf (hd : d.Legible) (targetId : String) (fields : Dict String String)
    (hfields : d.hashAt (pipelineKey targetId) = .ok fields) :
    ∃ entries,
      List.Forall₂ (fun text e => StaticEntry.ofText? text = some e) fields.values entries ∧
      on (entriesOf targetId) d = (.ok (inOrder StaticEntry.executionOrder entries), d) := by
  have htexts : ∀ text ∈ fields.values, ∃ e : StaticEntry, e.Storable ∧ text = e.toText := by
    intro text htext
    rcases List.mem_map.mp htext with ⟨⟨name, text⟩, hmem, rfl⟩
    rw [Dict.mem_entries_iff] at hmem
    have hfield := Store.field?_of_hashAt d _ name fields hfields
    rw [hmem] at hfield
    exact hd targetId name text hfield
  rcases readEntries_of_storable (pipelineKey targetId) fields.values htexts with
    ⟨entries, hentries, hall⟩
  have hask : on (ask (.getFields (pipelineKey targetId))) d = (.ok fields, d) :=
    on_ask_ok (.getFields (pipelineKey targetId)) d fields hfields
  have hstep : on (ofExcept (fields.values.mapM (readEntry (pipelineKey targetId)))) d =
      (.ok entries, d) := by
    rw [on_ofExcept, hall]
  exact ⟨entries, hentries,
    (on_bind_ok _ _ d d fields hask).trans ((on_bind_ok _ _ d d entries hstep).trans rfl)⟩

/-- Fields are deleted from a hash one by one. -/
theorem on_deleteFields (key : String) (ids : List Nat) (fields : Dict String String)
    (h : d.hashAt key = .ok fields) :
    (on (deleteFields key ids) d).1 = .ok () ∧
      (on (deleteFields key ids) d).2.hashAt key =
        .ok (ids.foldl (fun fields id => fields.erase (Number.writeNatural id)) fields) := by
  induction ids generalizing d fields with
  | nil => exact ⟨rfl, h⟩
  | cons id rest ih =>
    have hchange := on_change _ d _
      (Store.mutate_deleteField d key (Number.writeNatural id) fields h)
    have hstep : on (deleteFields key (id :: rest)) d =
        on (deleteFields key rest) (d.putHash key (fields.erase (Number.writeNatural id))) :=
      on_bind_ok _ _ d _ () hchange
    rw [hstep]
    refine ih _ _ ?_
    rw [Store.hashAt_putHash, if_pos rfl]

/-- The counter can be set back. -/
theorem on_resetIfVacant (n : Nat) (h : d.Counts counterKey n) :
    ∃ done, (on resetIfVacant d).1 = .ok done := by
  have hexec : ∃ done, (d.exec resetCall).1 = .ok done := by
    simp only [Store.exec, Store.resetIfVacant]
    split
    · exact ⟨false, rfl⟩
    · rcases h.2 with hget | ⟨hget, -⟩
      · rw [hget]
        exact ⟨true, rfl⟩
      · rw [hget]
        exact ⟨false, rfl⟩
  rcases hexec with ⟨done, hdone⟩
  exact ⟨done, congrArg Prod.fst (on_ask_ok resetCall d done hdone)⟩

/-- A filter is taken out of a legible pipeline in two steps: the fields named by the ids of its
    entries are deleted, and the counter is set back if that may be. -/
theorem on_deleteMatching_steps (n : Nat) (h : d.Ledger n) (hd : d.Legible)
    (targetId filterName : String) (fields : Dict String String)
    (hfields : d.hashAt (pipelineKey targetId) = .ok fields) :
    ∃ entries removed d', List.Forall₂ (fun text e => StaticEntry.ofText? text = some e)
        fields.values entries ∧
      removed = ((inOrder StaticEntry.executionOrder entries).filter
        fun e => e.filterName = filterName).map StaticEntry.policyId ∧
      on (deleteFields (pipelineKey targetId) removed) d = (.ok (), d') ∧
      d'.hashAt (pipelineKey targetId) =
        .ok (removed.foldl (fun fields id => fields.erase (Number.writeNatural id)) fields) ∧
      on (deleteMatching targetId filterName) d = (.ok removed, (d'.exec resetCall).2) := by
  rcases on_entriesOf d hd targetId fields hfields with ⟨entries, hread, hentries⟩
  obtain ⟨removed, hremoved⟩ : ∃ removed, removed = ((inOrder StaticEntry.executionOrder
      entries).filter fun e => e.filterName = filterName).map StaticEntry.policyId := ⟨_, rfl⟩
  rcases on_deleteFields d (pipelineKey targetId) removed fields hfields with ⟨hdone, hleft⟩
  have hsparing : (deleteFields (pipelineKey targetId) removed).run.Makes Store.Call.Sparing :=
    makes_deleteFields _ _ _ fun _ => ⟨targetId, rfl⟩
  -- The ledger is in order after the deletions, so that there is a counter to set back.
  have hledger : ∃ m, (on (deleteFields (pipelineKey targetId) removed) d).2.Ledger m :=
    on_invariant Store.Call.Sparing (fun d' => ∃ m, d'.Ledger m) (by
      rintro c d' hc ⟨m, hm⟩
      rcases Store.ledger_exec_sparing d' m c hm hc with ⟨m', -, hm', -⟩
      exact ⟨m', hm'⟩) _ hsparing d ⟨n, h⟩
  rcases hrun : on (deleteFields (pipelineKey targetId) removed) d with ⟨result, d'⟩
  rw [hrun] at hdone hleft hledger
  cases hdone
  rcases hledger with ⟨m, hm⟩
  rcases on_resetIfVacant d' m hm.counts with ⟨done, hreset⟩
  have hdiscard : on (discard resetIfVacant) d' = (.ok (), (d'.exec resetCall).2) := by
    rw [on_discard, hreset]
    rfl
  refine ⟨entries, removed, d', hread, hremoved, hrun, hleft, ?_⟩
  rw [deleteMatching, on_bind_ok _ _ d d _ hentries]
  dsimp only
  rw [← hremoved, on_bind_ok _ _ d d' () hrun, on_bind_ok _ _ d' _ () hdiscard, on_pure]

/-- A filter is taken out of a legible pipeline: the fields named by the ids of its entries are
    deleted, and these ids are given in execution order. -/
theorem on_deleteMatching (n : Nat) (h : d.Ledger n) (hd : d.Legible) (targetId filterName : String)
    (fields : Dict String String) (hfields : d.hashAt (pipelineKey targetId) = .ok fields) :
    ∃ entries removed, List.Forall₂ (fun text e => StaticEntry.ofText? text = some e)
        fields.values entries ∧
      removed = ((inOrder StaticEntry.executionOrder entries).filter
        fun e => e.filterName = filterName).map StaticEntry.policyId ∧
      (on (deleteMatching targetId filterName) d).1 = .ok removed ∧
      (on (deleteMatching targetId filterName) d).2.hashAt (pipelineKey targetId) =
        .ok (removed.foldl (fun fields id => fields.erase (Number.writeNatural id)) fields) := by
  rcases on_deleteMatching_steps d n h hd targetId filterName fields hfields with
    ⟨entries, removed, d', hread, hremoved, -, hleft, hrun⟩
  refine ⟨entries, removed, hread, hremoved, by rw [hrun], ?_⟩
  rw [hrun, ← hleft]
  refine Store.hashAt_congr _ _ _ (Store.get?_exec d' resetCall _ ?_)
  simp [Store.Call.changed, pipelineKey_ne_counterKey]

end DeleteMatching

end Registry

end StoragePolicy
