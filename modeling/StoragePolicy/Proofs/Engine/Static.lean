import StoragePolicy.Engine.Deploy
import StoragePolicy.Engine.Policies
import StoragePolicy.Proofs.Directory
import StoragePolicy.Proofs.Engine.Deeds
import StoragePolicy.Proofs.Registry.Callers

/-!
# What concerns static policies alone

Static policies are kept in pipelines, and monitors act on pipelines. None of it touches a record, a
monitor or the catalog, so all of it passes as far as these are concerned. What has to be shown is
that the ids stay in order: an entry is stored under an id just taken, an update puts an entry where
one was, and the rest deletes.

## Main definitions

* `Store.Call.Idle`: Calls that at most take ids away from pipelines.
* `Registry.Passes`: Programs over the store of which records and catalog take no notice.
* `Engine.Sized`: Object filters whose size can be held.
* `Session.setFilter`: Setting a filter, as an action does it.

## Theorems

* `on_sparing`: Sparing calls keep the ledger in order and leave the catalog alone.
* `passes_idle`, `passes_updateStatic`: A program of idle calls passes, and so does an update.
* `works_dispatch`: So does an action.
* `works_deployStatic`, `works_updateEntry`, `works_deleteEntry`: So do the operations.
-/

namespace StoragePolicy

open Registry

/-- The calls that at most take ids away from pipelines, or set the counter back. -/
def Store.Call.Idle (c : Store.Call) : Prop :=
  c.Sparing ∧ ∀ key ∈ c.changed, key = counterKey ∨ ∃ targetId, key = pipelineKey targetId

namespace Registry

variable {α : Type}

theorem recordKey_not_mem_idle (c : Store.Call) (h : c.Idle) (name : String) :
    PolicyRecord.keyStem ++ name ∉ c.changed := by
  intro hmem
  rcases h.2 _ hmem with hkey | ⟨targetId, hkey⟩
  · exact recordKey_ne_counterKey name hkey
  · exact recordKey_ne_pipelineKey name targetId hkey

/-- A sparing call changes counter, pipelines and records at most. -/
theorem key_of_sparing (c : Store.Call) (h : c.Sparing) (key : String) (hmem : key ∈ c.changed) :
    key = counterKey ∨ (∃ targetId, key = pipelineKey targetId) ∨
      ∃ name, key = PolicyRecord.keyStem ++ name := by
  cases c with
  | get k => exact absurd hmem List.not_mem_nil
  | getField k name => exact absurd hmem List.not_mem_nil
  | getFields k => exact absurd hmem List.not_mem_nil
  | getItems k => exact absurd hmem List.not_mem_nil
  | contains k => exact absurd hmem List.not_mem_nil
  | keys stem => exact absurd hmem List.not_mem_nil
  | increment k => exact absurd h id
  | incrementReserving k r => exact absurd h id
  | resetIfVacant k stems =>
    rcases h with ⟨rfl, -⟩
    exact Or.inl (List.mem_singleton.mp hmem)
  | updateField k name value =>
    rcases h with ⟨id, rfl⟩
    exact Or.inr (Or.inr ⟨_, List.mem_singleton.mp hmem⟩)
  | apply changes =>
    -- A batch that spares ids deletes one field of a pipeline, or one record.
    match changes, h with
    | [.deleteField _ _], ⟨targetId, rfl⟩ =>
      exact Or.inr (Or.inl ⟨targetId, List.mem_singleton.mp hmem⟩)
    | [.delete _], ⟨id, rfl⟩ =>
      exact Or.inr (Or.inr ⟨_, List.mem_singleton.mp hmem⟩)

/-- A sparing call changes nothing of the catalog. -/
theorem own_of_sparing (c : Store.Call) (h : c.Sparing) (key : String) (hmem : key ∈ c.changed) :
    Own key := by
  rcases key_of_sparing c h key hmem with hcounter | hpipeline | hrecord
  · exact Or.inl hcounter
  · exact Or.inr (Or.inr (Or.inl hpipeline))
  · exact Or.inr (Or.inr (Or.inr hrecord))

/-- A program of sparing calls keeps the ledger in order and leaves the catalog alone. -/
theorem on_sparing (p : Registry α) (hp : p.run.Makes Store.Call.Sparing) (d : Store) (n : Nat)
    (h : d.Ledger n) :
    (∃ m, m ≤ n ∧ (on p d).2.Ledger m) ∧ d.SameCatalog (on p d).2 := by
  refine ⟨?_, fun key hkey => ?_⟩
  · refine on_invariant Store.Call.Sparing (fun d' => ∃ m, m ≤ n ∧ d'.Ledger m) ?_ p hp d
      ⟨n, Nat.le_refl n, h⟩
    rintro c d' hc ⟨m, hle, hledger⟩
    rcases Store.ledger_exec_sparing d' m c hledger hc with ⟨m', hle', hledger', -⟩
    exact ⟨m', Nat.le_trans hle' hle, hledger'⟩
  · exact get?_on p _ (Program.makes_mono _ _ p.run hp fun c hc hmem =>
      hkey (own_of_sparing c hc key hmem)) d

/-- A program that keeps ledger and pipelines in order and leaves records and catalog alone. -/
def Passes (p : Registry α) : Prop :=
  ∀ (d : Store) (n : Nat), d.Ledger n → d.Legible → (∃ m, m ≤ n ∧ (on p d).2.Ledger m) ∧
    (on p d).2.Legible ∧ d.SameRecords (on p d).2 ∧ d.SameCatalog (on p d).2

theorem passes_idle (p : Registry α) (hp : p.run.Makes Store.Call.Idle) : Passes p := by
  intro d n h hlegible
  have hcalls := Program.makes_mono _ _ p.run hp fun c hc => hc.1
  have hsparing := on_sparing p hcalls d n h
  have htidy := legible_on p (makes_tidy_of_sparing p hcalls) d hlegible
  refine ⟨hsparing.1, htidy, fun name => ?_, hsparing.2⟩
  exact get?_on p _ (Program.makes_mono _ _ p.run hp fun c hc =>
    recordKey_not_mem_idle c hc name) d

theorem passes_bind {β : Type} (p : Registry α) (f : α → Registry β) (hp : Passes p)
    (hf : ∀ a, Passes (f a)) : Passes (p >>= f) := by
  intro d n h hlegible
  have hfirst := hp d n h hlegible
  rw [on_bind]
  generalize on p d = outcome at hfirst
  rcases outcome with ⟨result, d'⟩
  rcases hfirst with ⟨⟨m, hm, hledger⟩, htidy, hrecords, hcatalog⟩
  cases result with
  | error e => exact ⟨⟨m, hm, hledger⟩, htidy, hrecords, hcatalog⟩
  | ok a =>
    rcases hf a d' m hledger htidy with ⟨⟨k, hk, hledger'⟩, htidy', hrecords', hcatalog'⟩
    refine ⟨⟨k, Nat.le_trans hk hm, hledger'⟩, htidy', ?_, fun key hkey => ?_⟩
    · exact Store.sameRecords_trans _ _ _ hrecords hrecords'
    · exact (hcatalog' key hkey).trans (hcatalog key hkey)

theorem passes_updateStatic (targetId : String) (id : Nat) (patch : List (String × Json)) :
    Passes (updateStatic targetId id patch) := by
  intro d n h hlegible
  have hstay : (∃ m, m ≤ n ∧ d.Ledger m) ∧ d.Legible ∧ d.SameRecords d ∧ d.SameCatalog d :=
    ⟨⟨n, Nat.le_refl n, h⟩, hlegible, Store.sameRecords_refl d, fun _ _ => rfl⟩
  rcases h.pipelines targetId with ⟨fields, hfields⟩
  rw [on_updateStatic targetId id patch d fields hfields]
  cases hget : fields.get? (Number.writeNatural id) with
  | none => exact hstay
  | some text =>
    dsimp only
    cases hpatched : patchedEntry (pipelineKey targetId) text patch with
    | error e => exact hstay
    | ok entry =>
      refine ⟨⟨n, Nat.le_refl n, ?_⟩, ?_, ?_, ?_⟩
      · -- The entry was in use before, so that nothing new is.
        refine Store.ledger_putHash d n _ _ h (pipelineKey_ne_counterKey targetId) ?_
        intro x place hx
        rw [Store.holds_putHash_pipeline] at hx
        by_cases hplace : place = .entry targetId
        · rw [if_pos hplace, Dict.get?_insert] at hx
          rw [hplace, Store.Holds, Store.field?_of_hashAt d _ _ fields hfields]
          by_cases hxid : x = Number.writeNatural id
          · rw [hxid, hget]
            rfl
          · rw [if_neg hxid] at hx
            exact hx
        · rw [if_neg hplace] at hx
          exact hx
      · refine Store.fitting_putHash _ d hlegible _ fields hfields _ ?_
        intro name text' htext'
        rw [Dict.get?_insert] at htext'
        split at htext'
        · cases htext'
          exact Or.inr ⟨entry, storable_patchedEntry _ _ _ _ hpatched, rfl⟩
        · exact Or.inl htext'
      · exact Store.sameRecords_putHash d _ _ fun name => recordKey_ne_pipelineKey name targetId
      · intro key hkey
        have hne : key ≠ pipelineKey targetId := fun heq =>
          hkey (Or.inr (Or.inr (Or.inl ⟨targetId, heq⟩)))
        exact (Store.get?_putHash d _ key _).trans (if_neg hne)

/-- The next id is the one after the counter, and it is reserved. -/
theorem on_nextId (d : Store) (n : Nat) (h : d.Ledger n) (hroom : n < Number.maxWord) :
    on nextId d = (.ok (n + 1), (d.exec nextIdCall).2) ∧
      (d.exec nextIdCall).2.Ledger (n + 1) ∧
      (d.exec nextIdCall).2.Holds (Number.writeNatural (n + 1)) .reserved := by
  rcases h.reservations with ⟨reserved, hreserved⟩
  have hexec := Store.exec_nextId d n reserved h.counts hroom hreserved
  refine ⟨on_ask_ok nextIdCall d (n + 1) (by rw [hexec]), ?_, ?_⟩
  · rw [hexec]
    exact Store.ledger_nextId d n reserved h hroom hreserved
  · rw [hexec]
    exact (Store.holds_withNextId d n reserved hreserved _ _).mpr (Or.inl ⟨rfl, rfl⟩)

theorem idle_getFields (key : String) : (Store.Call.getFields key).Idle :=
  ⟨trivial, by simp [Store.Call.changed]⟩

theorem idle_reset : resetCall.Idle := ⟨⟨rfl, rfl⟩, by simp [Store.Call.changed]⟩

theorem idle_getField (targetId name : String) :
    (Store.Call.getField (pipelineKey targetId) name).Idle :=
  ⟨trivial, by simp [Store.Call.changed]⟩

theorem idle_deleteField (targetId name : String) :
    (Store.Call.apply [.deleteField (pipelineKey targetId) name]).Idle := by
  refine ⟨⟨targetId, rfl⟩, fun key hkey => Or.inr ⟨targetId, ?_⟩⟩
  simpa [Store.Call.changed, Mutation.key] using hkey

theorem idle_deleteStatic (targetId : String) (id : Nat) :
    (deleteStatic targetId id).run.Makes Store.Call.Idle :=
  makes_deleteStatic _ targetId id (idle_getField targetId _) (idle_deleteField targetId _)
    idle_reset

theorem idle_deleteMatching (targetId filterName : String) :
    (deleteMatching targetId filterName).run.Makes Store.Call.Idle :=
  makes_deleteMatching _ targetId filterName (idle_getFields _) (idle_deleteField targetId)
    idle_reset

/-! ### What a rule is checked against -/

section Check

variable (kind : Store.Call → Prop) (directory : Directory)

theorem makes_requireFilter (name : String) (hget : kind (.getFields (filterKey name))) :
    (requireFilter name).run.Makes kind := by
  refine makes_bind _ _ _ ?_ fun found => ?_
  · refine makes_bind _ _ _ (makes_ask _ _ hget) fun fields => ?_
    split
    · exact makes_pure _ _
    · exact makes_pure _ _
  · cases found with
    | none => exact makes_throw _ _
    | some filter => exact makes_pure _ _

variable (hnames : kind (.getFields Directory.namesKey))
  (henabled : kind (.getItems Directory.enabledKey))

include hnames henabled

/-- A rule is checked by looking at the directory and at filters. -/
theorem makes_check (hfilter : ∀ name, kind (.getFields (filterKey name))) (rule : Rule) :
    (Engine.check directory rule).run.Makes kind := by
  refine makes_bind _ _ _ (makes_resolveAll kind directory hnames henabled _) fun targets => ?_
  refine makes_bind _ _ _ ?_ fun _ => makes_pure _ _
  generalize rule.actions = actions
  induction actions with
  | nil => exact makes_pure _ _
  | cons action rest ih =>
    exact makes_bind _ _ _ (makes_discard _ _ (makes_requireFilter kind _ (hfilter _))) fun _ => ih

end Check

theorem idle_requireFilter (name : String) : (requireFilter name).run.Makes Store.Call.Idle :=
  makes_requireFilter _ name (idle_getFields _)

theorem idle_names (directory : Directory) : directory.names.run.Makes Store.Call.Idle :=
  makes_names _ directory (idle_getFields _)

theorem idle_check (directory : Directory) (rule : Rule) :
    (Engine.check directory rule).run.Makes Store.Call.Idle :=
  makes_check _ directory (idle_getFields _) ⟨trivial, by simp [Store.Call.changed]⟩
    (fun _ => idle_getFields _) rule

end Registry

/-- The object size of a filter, if it has one, can be held in a machine word. -/
def Engine.Sized (objectFilter : Option ObjectFilter) : Prop :=
  ∀ size, objectFilter.bind ObjectFilter.objectSize = some size → size.value ≤ Number.maxWord

theorem Engine.sized_of_storable (objectFilter : Option ObjectFilter)
    (h : ∀ filter, objectFilter = some filter → filter.Storable) : Sized objectFilter := by
  intro size hsize
  rcases Option.bind_eq_some_iff.mp hsize with ⟨filter, hsome, hvalue⟩
  exact (h filter hsome).objectSize size hvalue

/-- The object filter of a rule that has been read can be held. -/
theorem Engine.sized_of_parse (line : String) (rule : Rule) (hrule : Rule.parse line = .ok rule) :
    Engine.Sized rule.objectFilter :=
  Engine.sized_of_storable rule.objectFilter fun filter hfilter =>
    Rule.objectFilter_of_parse line rule filter hrule hfilter

/-- The entry of an action can be stored, if its object size can. -/
theorem Engine.storable_newEntry (id : Nat) (filterName : String) (action : FilterAction)
    (objectFilter : Option ObjectFilter) (hid : id ≤ Number.maxWord) (hsized : Sized objectFilter) :
    (Engine.newEntry id filterName action objectFilter).Storable := ⟨hid, hid, hsized⟩

namespace Session

section Works

variable {α : Type} (kind : Deed → Prop)

/-- A program over the store that passes there passes. -/
theorem works_ofRegistry (hpass : kind .pass) (p : Registry α) (hp : Passes p) :
    Works kind (Engine.ofRegistry p).run := by
  intro s
  refine reaches_of_does s _ (effort_run _ s) fun _ hs => ⟨.pass, hpass, ?_⟩
  rw [run_ofRegistry s p hs.unrefused]
  rcases hs.bound with ⟨n, hn, hledger⟩
  rcases hp s.store n hledger hs.legible with ⟨⟨m, hm, hafter⟩, hlegible, hrecords, hcatalog⟩
  exact ⟨⟨hcatalog, hrecords, rfl⟩, hs.unrefused, hlegible, m, Nat.le_trans hm hn, hafter⟩

theorem works_ofRegistry_idle (hpass : kind .pass) (p : Registry α)
    (hp : p.run.Makes Store.Call.Idle) : Works kind (Engine.ofRegistry p).run :=
  works_ofRegistry kind hpass p (passes_idle p hp)

/-- A call to the storage side passes. -/
theorem reaches_withStorage (hpass : kind .pass) (s : Session) (c : InstallerCall) :
    Reaches kind s (s.withStorage (s.storage.receive c).2) := by
  have heffort : s.effort ≤ (s.withStorage (s.storage.receive c).2).effort := by
    simp [effort, withStorage, StorageSide.receive]
  refine reaches_of_does s _ heffort fun _ hs => ⟨.pass, hpass, ?_⟩
  rcases hs.bound with ⟨n, hn, hledger⟩
  exact ⟨⟨fun _ _ => rfl, fun _ => rfl, rfl⟩, hs.unrefused, hs.legible, n,
    Nat.le_trans hn heffort, hledger⟩

theorem works_uninstall (hpass : kind .pass) (target : Target) (filter : FilterSpec) :
    Works kind (Engine.uninstall target filter).run := by
  intro s
  rw [run_uninstall]
  exact reaches_withStorage kind hpass s _

end Works

/-- Setting a filter: its entry is stored under a new id, and it is installed. -/
def setFilter (target : Target) (filter : FilterSpec) (entry : Nat → StaticEntry) :
    Engine Engine.Outcome := do
  let id ← Engine.ofRegistry nextId
  Engine.ofRegistry (putStatic target.id id (entry id))
  Engine.install target filter (entry id)
  return .installed id

/-- The store after an entry has been stored under a new id. -/
def withEntry (d : Store) (targetId : String) (id : Nat) (entry : StaticEntry) : Store :=
  ((d.exec nextIdCall).2.exec (putStaticCall targetId id entry)).2

/-- Storing an entry under a new id concerns counter, reservations and one pipeline. -/
theorem get?_withEntry (d : Store) (targetId : String) (id : Nat) (entry : StaticEntry)
    (key : String) (hcounter : key ≠ counterKey) (hreservations : key ≠ reservationKey)
    (hpipeline : key ≠ pipelineKey targetId) :
    (withEntry d targetId id entry).get? key = d.get? key := by
  rw [withEntry, Store.get?_exec _ _ key, Store.get?_exec _ _ key]
  · simp [Store.Call.changed, hcounter, hreservations]
  · simp [Store.Call.changed, release, Mutation.key, hpipeline, hreservations]

section SetFilter

variable (s : Session) (hopen : s.Open) (n : Nat) (hledger : s.store.Ledger n)
  (hroom : n < Number.maxWord)

include hopen hledger hroom

/-- Setting a filter stores its entry under the next id. -/
theorem run_setFilter (target : Target) (filter : FilterSpec) (entry : Nat → StaticEntry)
    (hentry : ∀ id, (entry id).policyId = id) :
    (withEntry s.store target.id (n + 1) (entry (n + 1))).Ledger (n + 1) ∧
      s.run (setFilter target filter entry).run =
        ((Except.mapError EngineError.ofInstaller
            (s.storage.receive (.install target filter (entry (n + 1)))).1).map
              fun _ => .installed (n + 1),
          (s.withStore (withEntry s.store target.id (n + 1) (entry (n + 1)))).withStorage
            (s.storage.receive (.install target filter (entry (n + 1)))).2) := by
  rcases on_nextId s.store n hledger hroom with ⟨hnext, hledger', hheld⟩
  -- The entry is stored as the use of the id that has just been taken.
  have huse : (Use.putStatic target.id (entry (n + 1))).call (n + 1) =
      some (putStaticCall target.id (n + 1) (entry (n + 1))) := by
    rw [Use.call]
    congr
    exact (hentry (n + 1)).symm
  have hput : on (putStatic target.id (n + 1) (entry (n + 1))) (s.store.exec nextIdCall).2 =
      (.ok (), withEntry s.store target.id (n + 1) (entry (n + 1))) := by
    rcases hledger'.reservations with ⟨reserved, hreserved⟩
    rcases hledger'.pipelines target.id with ⟨fields, hfields⟩
    refine on_ask_ok (putStaticCall target.id (n + 1) (entry (n + 1))) _ () ?_
    rw [Store.exec_putStatic _ _ _ _ _ _ hfields hreserved]
  refine ⟨(Store.ledger_exec_use _ _ _ _ _ hledger' hheld huse).1, ?_⟩
  have hfirst := run_ofRegistry s nextId hopen
  rw [hnext] at hfirst
  rw [setFilter, run_bind_ok _ _ _ _ _ hfirst]
  have hsecond := run_ofRegistry (s.withStore (s.store.exec nextIdCall).2)
    (putStatic target.id (n + 1) (entry (n + 1))) hopen
  rw [store_withStore, hput] at hsecond
  -- What the storage side answers is the last thing that is asked for.
  have hlast : ∀ (u : Session) (result : Except EngineError Unit),
      u.run (ExceptT.bindCont (fun _ => (pure (.installed (n + 1)) : Engine Engine.Outcome))
        result) = (result.map fun _ => .installed (n + 1), u) := by
    intro u result
    cases result <;> rfl
  rw [run_bind_ok _ _ _ _ _ hsecond, run_bindCont, run_install]
  exact hlast _ _

end SetFilter

section Static

variable (kind : Deed → Prop) (hpass : kind .pass)

include hpass

theorem works_setFilter (target : Target) (filter : FilterSpec) (entry : Nat → StaticEntry)
    (hentry : ∀ id, (entry id).policyId = id)
    (hstorable : ∀ id, id ≤ Number.maxWord → (entry id).Storable) :
    Works kind (setFilter target filter entry).run := by
  intro s
  refine reaches_of_does s _ (effort_run _ s) fun hle hs => ⟨.pass, hpass, ?_⟩
  have heffort := effort_run (setFilter target filter entry).run s
  rcases hs.bound with ⟨n, hn, hledger⟩
  rcases run_setFilter s hs.unrefused n hledger (by omega) target filter entry hentry with
    ⟨hafter, hrun⟩
  rw [hrun]
  have hlegible : (withEntry s.store target.id (n + 1) (entry (n + 1))).Legible :=
    Store.legible_exec _ _ (tidy_putStatic _ _ _ (hstorable (n + 1) (by omega)))
      (Store.legible_exec _ _ tidy_nextId hs.legible)
  refine ⟨⟨?_, ?_, rfl⟩, hs.unrefused, hlegible, n + 1, ?_, hafter⟩
  · exact fun key hkey => get?_withEntry _ _ _ _ key (fun h => hkey (Or.inl h))
      (fun h => hkey (Or.inr (Or.inl h))) fun h => hkey (Or.inr (Or.inr (Or.inl ⟨_, h⟩)))
  · exact fun name => get?_withEntry _ _ _ _ _ (recordKey_ne_counterKey name)
      (recordKey_ne_reservationKey name) (recordKey_ne_pipelineKey name _)
  -- The id is paid for by the call that the storage side gets.
  · have hcalls : (s.storage.receive (.install target filter (entry (n + 1)))).2.calls.length =
        s.storage.calls.length + 1 := by
      simp [StorageSide.receive]
    simp only [effort] at hn ⊢
    have hstorage : ((s.withStore (withEntry s.store target.id (n + 1)
        (entry (n + 1)))).withStorage (s.storage.receive (.install target filter
          (entry (n + 1)))).2).storage.calls.length = s.storage.calls.length + 1 := hcalls
    rw [hstorage, monitors_withStorage, monitors_withStore]
    omega

/-- An action passes, as far as records and monitors are concerned. -/
theorem works_dispatch (target : Target) (action : FilterAction)
    (objectFilter : Option ObjectFilter)
    (hfilter : ∀ filter, objectFilter = some filter → filter.Storable) :
    Works kind (Engine.dispatch target action objectFilter).run := by
  refine works_then _ _ (works_ofRegistry_idle kind hpass _ (idle_requireFilter _)) fun filter => ?_
  cases action.verb with
  | set =>
    exact works_setFilter kind hpass target filter
      (fun id => Engine.newEntry id filter.name action objectFilter) (fun _ => rfl)
      fun id hid => Engine.storable_newEntry id filter.name action objectFilter hid
        (Engine.sized_of_storable objectFilter hfilter)
  | delete =>
    refine works_then _ _ (works_uninstall kind hpass target filter) fun _ => ?_
    refine works_then _ _ (works_ofRegistry_idle kind hpass _ (idle_deleteMatching _ _)) fun _ => ?_
    exact works_pure _

theorem works_deleteEntry (targetId : String) (id : Nat) :
    Works kind (Engine.ofRegistry (Engine.deleteEntry targetId id)).run := by
  refine works_ofRegistry_idle kind hpass _ ?_
  refine makes_bind _ _ _ (idle_deleteStatic targetId id) fun existed => ?_
  cases existed with
  | true => exact makes_pure _ _
  | false => exact makes_throw _ _

theorem works_updateEntry (directory : Directory) (targetId : String) (id : Nat)
    (patch : List (String × Json)) :
    Works kind (Engine.ofRegistry (Engine.updateEntry directory targetId id patch)).run := by
  refine works_ofRegistry kind hpass _ (passes_bind _ _ (passes_updateStatic targetId id patch) ?_)
  intro entry
  refine passes_idle _ (makes_bind _ _ _ ?_ fun name => makes_pure _ _)
  exact makes_bind _ _ _ (idle_names directory) fun names => makes_pure _ _

theorem works_deployStatic (objectFilter : Option ObjectFilter)
    (hfilter : ∀ filter, objectFilter = some filter → filter.Storable)
    (pairs : List (Target × FilterAction × Nat)) (done : Engine.Deployment) :
    Works kind (Engine.deployStatic objectFilter pairs done) :=
  compositional_works.holds_deployStatic objectFilter
    (fun target action => works_dispatch kind hpass target action objectFilter hfilter) pairs done

end Static

end Session

end StoragePolicy
