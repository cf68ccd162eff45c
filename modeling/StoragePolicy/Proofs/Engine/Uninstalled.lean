import StoragePolicy.Proofs.Engine.Dispatching
import StoragePolicy.Proofs.Registry.Labels

/-!
# Taking a filter off a target

An action that deletes a filter first asks the storage side to remove it, and then takes its entries
out of the pipeline of the target. The entries are found by the filter they are of and deleted by
the ids they carry, so every entry has to carry the id it stands under.

It does, whatever has been asked of the engine before, as long as no update has given an entry
another id. An update that does so makes the deletion of one filter take out an entry of another one
and leave its own.

## Main definitions

* `Session.Operation.KeepsIds`: Operations that leave the ids of entries as they are.

## Theorems

* `labelled_exec`: Usual calls store entries under the ids they carry.
* `labelled_performAll`: So every entry carries the id it stands under.
* `run_delete`: What an action that deletes a filter does.
* `takenOut_of_run`: It takes all entries of the filter off the target and no others.
* `not_takenOut_of_relabelled`: An update of an id makes it take another entry.
-/

namespace StoragePolicy

open Registry

/-- Usual calls put no entry into a pipeline but under the id it carries. -/
theorem Store.labelled_exec (d : Store) (c : Store.Call) (hc : c.Usual) (h : d.Labelled) :
    (d.exec c).2.Labelled := by
  refine fitting_exec _ d c ?_ h
  cases hc with
  | sparing c hsparing => exact fitting_of_sparing _ c hsparing
  | nextId => exact fitting_nextId _
  | putStatic targetId e => exact fitting_putStatic _ targetId e.policyId e ⟨e, rfl, rfl⟩
  | putDynamic r => exact fitting_putDynamic _ r
  | release id => exact fitting_release _ id

namespace Session

/-- Operations that leave the ids of entries as they are. Only an update can do otherwise. -/
def Operation.KeepsIds : Operation → Prop
  | .updateStatic _ id patch => KeepsId id patch
  | _ => True

/-! ### Entries stay under the ids they carry -/

theorem looks_view (directory : Directory) (targetId : String) (id : Nat) (entry : StaticEntry) :
    (Engine.view directory targetId id entry).run.Makes Store.Call.Looks :=
  makes_bind _ _ _ (makes_bind _ _ _ (makes_names _ directory Directory.namesKey_not_own)
    fun _ => makes_pure _ _) fun _ => makes_pure _ _

/-- The name of the target is only looked up, so that an update does to the store what is done to
    the entry. -/
theorem store_on_updateEntry (directory : Directory) (targetId : String) (id : Nat)
    (patch : List (String × Json)) (d : Store) :
    (on (Engine.updateEntry directory targetId id patch) d).2 =
      (on (updateStatic targetId id patch) d).2 := by
  rw [Engine.updateEntry, on_bind]
  rcases on (updateStatic targetId id patch) d with ⟨result, d'⟩
  cases result with
  | error e => rfl
  | ok entry =>
    dsimp only
    rw [on_looks _ (looks_view directory targetId id entry)]

theorem labelled_call (c : Engine.Call) (s : Session) (hc : c.Usual) (h : s.store.Labelled) :
    (exec c s).2.store.Labelled := by
  cases c with
  | store c => exact store_exec_invariant _ c s h (Store.labelled_exec s.store c hc h)
  | _ => exact h

section Operations

variable (directory : Directory) (settings : Engine.Settings)

/-- Every operation but the deployment and the update is a program of modest calls. -/
theorem modest_program (operation : Operation) (hdeploy : ∀ text, operation ≠ .deploy text)
    (hupdate : ∀ targetId id patch, operation ≠ .updateStatic targetId id patch) :
    (operation.program directory settings).Makes Engine.Call.Modest := by
  cases operation with
  | deploy text => exact absurd rfl (hdeploy text)
  | deleteStatic targetId id =>
    exact Engine.makes_discard_program _ _ (Engine.modest_deleteEntry targetId id)
  | deleteDynamic id => exact Engine.makes_discard_program _ _ (Engine.modest_remove id)
  | updateStatic targetId id patch => exact absurd rfl (hupdate targetId id patch)
  | respawn id => exact Engine.makes_discard_program _ _ (Engine.modest_respawn id)
  | reload => exact Engine.makes_discard_program _ _ Engine.modest_reload
  | shutdown => exact Engine.modest_shutdown
  | ingest text => exact Engine.makes_discard_program _ _ (Engine.modest_ingestLines _ _)

theorem quiet_program (operation : Operation) (hdeploy : ∀ text, operation ≠ .deploy text)
    (hupdate : ∀ targetId id patch, operation ≠ .updateStatic targetId id patch) :
    (operation.program directory settings).Makes Engine.Call.Quiet :=
  Engine.quiet_program_of_modest _ (modest_program directory settings operation hdeploy hupdate)

/-- Every operation but the update is a program of usual calls. -/
theorem usual_program (operation : Operation)
    (h : ∀ targetId id patch, operation ≠ .updateStatic targetId id patch) :
    (operation.program directory settings).Makes Engine.Call.Usual := by
  cases operation with
  | deploy text =>
    exact Engine.makes_discard_program _ _ (Engine.usual_deploy settings directory text)
  | updateStatic targetId id patch => exact absurd rfl (h targetId id patch)
  | _ => exact Engine.usual_program_of_quiet _ (quiet_program directory settings _ (by simp)
      (by simp))

/-- An operation keeps entries under the ids they carry, if the pipelines can be read. -/
theorem labelled_program (s : Session) (hopen : s.Open) (hlegible : s.store.Legible)
    (hpipelines : ∀ targetId, s.store.HashAt (pipelineKey targetId)) (operation : Operation)
    (hkeeps : operation.KeepsIds) (h : s.store.Labelled) :
    (s.run (operation.program directory settings)).2.store.Labelled := by
  have husual : (∀ targetId id patch, operation ≠ .updateStatic targetId id patch) →
      (s.run (operation.program directory settings)).2.store.Labelled := fun hother =>
    kept_run (fun t => t.store.Labelled) labelled_call _
      (usual_program directory settings operation hother) s h
  cases operation with
  | updateStatic targetId id patch =>
    have hupdate := Store.labelled_updateStatic s.store hlegible h targetId
      (hpipelines targetId) id patch hkeeps
    rw [Operation.program, run_discard_program, run_ofRegistry s _ hopen, store_withStore,
      store_on_updateEntry]
    exact hupdate
  | _ => exact husual (by simp)

/-- Monitors that read store entries under the ids they carry. -/
theorem labelled_settle (s : Session) (h : s.store.Labelled) :
    (s.settle settings).store.Labelled :=
  kept_settle settings (fun t => t.store.Labelled) (fun handle binding m sample t ht =>
    kept_run _ labelled_call _ (Engine.usual_turn settings handle binding m sample) t ht)
    (fun _ _ ht => ht) s h

theorem labelled_performAll (stopped : Bool) (s : Session)
    (hs : s.Orderly directory settings stopped) (operations : List Operation)
    (hkeeps : ∀ operation ∈ operations, operation.KeepsIds)
    (heffort : (s.performAll directory settings operations).effort < Number.maxWord)
    (h : s.store.Labelled) : (s.performAll directory settings operations).store.Labelled := by
  induction operations generalizing stopped s with
  | nil => exact h
  | cons operation rest ih =>
    have hlast := effort_performAll directory settings (s.perform directory settings operation) rest
    have hnext := orderly_perform directory settings stopped s hs operation
      (Nat.lt_of_le_of_lt hlast heffort)
    rcases hs.counted.bound with ⟨n, -, hledger⟩
    exact ih _ _ hnext (fun other hother => hkeeps other (List.mem_cons_of_mem _ hother)) heffort
      (labelled_settle settings _ (labelled_program directory settings s hs.counted.unrefused
        hs.counted.legible hledger.pipelines operation (hkeeps operation List.mem_cons_self) h))

end Operations

/-- A session that begins has no entries. -/
theorem fitting_of_fresh (fits : String → String → Prop) (s : Session) (h : s.Fresh) :
    s.store.Fitting fits := by
  intro targetId name text htext
  rw [Store.field?, h.vacant _ (Or.inr (Or.inr (Or.inl ⟨targetId, rfl⟩)))] at htext
  cases htext

theorem labelled_of_fresh (s : Session) (h : s.Fresh) : s.store.Labelled := fitting_of_fresh _ s h

/-! ### The action -/

section Delete

variable (s : Session) (target : Target) (action : FilterAction)
  (hverb : action.verb = .delete) (objectFilter : Option ObjectFilter) (filter : FilterSpec)
  (hfilter : (on (getFilter action.filterName) s.store).1 = .ok (some filter))
  (haccepted : (s.storage.receive (.uninstall target filter)).1 = .ok ())

include hverb hfilter haccepted

/-- If the storage side agrees, the filter is taken out of the pipeline. -/
theorem run_delete (hopen : s.Open) :
    (s.run (Engine.dispatch target action objectFilter).run).1 =
        (on (deleteMatching target.id action.filterName) s.store).1.map .uninstalled ∧
      (s.run (Engine.dispatch target action objectFilter).run).2.store =
        (on (deleteMatching target.id action.filterName) s.store).2 := by
  rw [run_dispatch_delete s target action objectFilter filter hfilter hopen hverb haccepted]
  exact ⟨rfl, rfl⟩

end Delete

/-- Whatever has been asked of the engine, as long as no update has given an entry another id: an
    action that deletes a known filter from a target, and to which the storage side agrees, takes
    all entries of the filter out of the pipeline of the target and no others, and gives the ids
    under which these entries stood. -/
theorem takenOut_of_run (directory : Directory) (settings : Engine.Settings) (s : Session)
    (hfresh : s.Fresh) (hdirectory : directory.Slashless s.store) (operations : List Operation)
    (hkeeps : ∀ operation ∈ operations, operation.KeepsIds)
    (heffort : (s.performAll directory settings operations).effort < Number.maxWord)
    (target : Target) (action : FilterAction) (hverb : action.verb = .delete)
    (objectFilter : Option ObjectFilter) (filter : FilterSpec)
    (hfilter : (on (getFilter action.filterName)
      (s.performAll directory settings operations).store).1 = .ok (some filter))
    (haccepted : ((s.performAll directory settings operations).storage.receive
      (.uninstall target filter)).1 = .ok ()) :
    ∃ ids, ((s.performAll directory settings operations).run
        (Engine.dispatch target action objectFilter).run).1 = .ok (.uninstalled ids) ∧
      (s.performAll directory settings operations).store.TakenOut
        ((s.performAll directory settings operations).run
          (Engine.dispatch target action objectFilter).run).2.store
        target.id action.filterName ids := by
  have hbegin := orderly_of_fresh directory settings s hfresh hdirectory
  have hcounted := (orderly_performAll directory settings false s hbegin operations heffort).counted
  have hlabelled := labelled_performAll directory settings false s hbegin operations hkeeps heffort
    (labelled_of_fresh s hfresh)
  generalize s.performAll directory settings operations = u at *
  rcases hcounted.bound with ⟨n, -, hledger⟩
  rcases Store.takenOut_deleteMatching u.store hcounted.legible hlabelled n hledger target.id
    action.filterName with ⟨ids, hdone, htaken⟩
  rcases run_delete u target action hverb objectFilter filter hfilter haccepted hcounted.unrefused
    with ⟨hresult, hstore⟩
  refine ⟨ids, ?_, ?_⟩
  · rw [hresult, hdone]
    rfl
  · rw [hstore]
    exact htaken

/-! ### An update of a filter, and one of an id -/

section Update

variable (directory : Directory) (settings : Engine.Settings) (s : Session) (hopen : s.Open)
  (targetId : String) (id : Nat) (patch : List (String × Json)) (fields : Dict String String)
  (hfields : s.store.hashAt (pipelineKey targetId) = .ok fields) (e : StaticEntry)
  (he : e.Storable) (hstored : fields.get? (Number.writeNatural id) = some e.toText)
  (patched : StaticEntry)
  (hpatched : StaticEntry.ofMembers? (Json.mergeMembers e.jsonMembers patch) = some patched)

include hopen hfields he hstored hpatched

/-- All that an update does is to put the patched entry in the place of the old one. -/
theorem run_updateStatic :
    (s.run (Operation.program directory settings (.updateStatic targetId id patch))).2 =
      s.withStore (s.store.putHash (pipelineKey targetId)
        (fields.insert (Number.writeNatural id) patched.toText)) := by
  have hupdate := on_updateStatic targetId id patch s.store fields hfields
  rw [hstored] at hupdate
  dsimp only at hupdate
  rw [(patchedEntry_toText _ e he patch patched).mpr hpatched] at hupdate
  rw [Operation.program, run_discard_program, run_ofRegistry s _ hopen, store_on_updateEntry,
    hupdate]

/-- Monitors that have nothing to read do nothing afterwards. -/
theorem perform_updateStatic (hready : s.monitors.ready = []) :
    s.perform directory settings (.updateStatic targetId id patch) =
      s.withStore (s.store.putHash (pipelineKey targetId)
        (fields.insert (Number.writeNatural id) patched.toText)) := by
  rw [perform, run_updateStatic directory settings s hopen targetId id patch fields hfields e he
    hstored patched hpatched]
  exact settle_of_ready _ _ hready

end Update

/-- A session that begins, with two filters in the catalog. -/
def withTwoFilters : Session where
  backend :=
    { data := Dict.ofList [(filterKey "compress", .hash (Dict.ofList [("name", "compress")])),
        (filterKey "encrypt", .hash (Dict.ofList [("name", "encrypt")]))] }

theorem fresh_withTwoFilters : withTwoFilters.Fresh :=
  fresh_ofList _ fun e he => by
    rcases List.mem_cons.mp he with rfl | he
    · exact not_own_filterKey "compress"
    · rw [List.mem_singleton.mp he]
      exact not_own_filterKey "encrypt"

instance : DecidableEq FilterSpec := fun a b =>
  decidable_of_iff (a.name = b.name ∧ a.attributes = b.attributes)
    ⟨fun h => by cases a; cases b; cases h.1; cases h.2; rfl, fun h => h ▸ ⟨rfl, rfl⟩⟩

/-- Three filters are set. -/
def threeSet : List Operation :=
  [.deploy "TENANT alice DO SET compress, SET encrypt, SET encrypt"]

/-- The target that is meant. -/
def tenantAlice : Target := { tenantId := "t1", tenantName := "alice" }

/-- The entry of a filter that has been set without anything else. -/
def plainEntry (id : Nat) (filterName : String) (order : Nat) : StaticEntry :=
  { policyId := id, filterName, executionOrder := order }

/-- The texts of three entries, by the names under which they stand. -/
def textsOf (first second third : StaticEntry) : Dict String String :=
  Dict.ofList [("1", first.toText), ("2", second.toText), ("3", third.toText)]

section TextsOf

variable {first second third : StaticEntry}

theorem get?_textsOf : (textsOf first second third).get? "1" = some first.toText ∧
    (textsOf first second third).get? "2" = some second.toText ∧
    (textsOf first second third).get? "3" = some third.toText := by
  simp [textsOf, Dict.get?_ofList]

/-- The names of the fields in order. -/
theorem names_lt : ("1" : String) < "2" ∧ ("2" : String) < "3" ∧ ("1" : String) < "3" ∧
    ¬ ("2" : String) < "1" ∧ ¬ ("3" : String) < "1" ∧ ¬ ("3" : String) < "2" ∧
    ¬ ("1" : String) < "1" ∧ ¬ ("3" : String) < "3" := by decide

theorem insert_textsOf :
    (∀ e : StaticEntry, (textsOf first second third).insert "1" e.toText =
      textsOf e second third) ∧
    ∀ e : StaticEntry, (textsOf first second third).insert "3" e.toText =
      textsOf first second e := by
  simp only [textsOf, Dict.ofList, List.foldl_cons, List.foldl_nil, Dict.insert, Dict.place,
    Dict.empty, names_lt, if_true, if_false, implies_true, and_self]

theorem values_textsOf :
    (textsOf first second third).values = [first, second, third].map StaticEntry.toText := by
  simp only [textsOf, Dict.ofList, List.foldl_cons, List.foldl_nil, Dict.insert, Dict.place,
    Dict.empty, names_lt, if_true, if_false, Dict.values, List.map_cons, List.map_nil]

end TextsOf

/-- The texts of the three entries that have been set. -/
def threeTexts : Dict String String :=
  textsOf (plainEntry 1 "compress" 1) (plainEntry 2 "encrypt" 2) (plainEntry 3 "encrypt" 3)

/-- An action that deletes a filter. -/
def deleteCompress : FilterAction := { verb := .delete, filterName := "compress" }

/-- The filter as the catalog describes it. -/
def compressFilter : FilterSpec := { name := "compress", attributes := Dict.empty }

theorem storable_plainEntry (id : Nat) (filterName : String) (order : Nat)
    (hid : id ≤ Number.maxWord) (horder : order ≤ Number.maxWord) :
    (plainEntry id filterName order).Storable := ⟨hid, horder, fun _ hsize => nomatch hsize⟩

/-- What the deployment of the three filters has brought about. -/
theorem performAll_threeSet :
    (withTwoFilters.performAll alice {} threeSet).store.hashAt (pipelineKey "t1") =
        .ok threeTexts ∧
      (withTwoFilters.performAll alice {} threeSet).monitors.ready = [] ∧
      (withTwoFilters.performAll alice {} threeSet).effort = 3 ∧
      (on (getFilter deleteCompress.filterName)
        (withTwoFilters.performAll alice {} threeSet).store).1 = .ok (some compressFilter) ∧
      ((withTwoFilters.performAll alice {} threeSet).storage.receive
        (.uninstall tenantAlice compressFilter)).1 = .ok () := by
  decide +kernel

/-- What stands in the pipeline does not matter for what is known of a filter. -/
theorem on_getFilter_putHash (d : Store) (name targetId : String) (fields : Dict String String) :
    (on (getFilter name) (d.putHash (pipelineKey targetId) fields)).1 =
      (on (getFilter name) d).1 := by
  refine on_getFilter_congr d _ (fun key hkey => ?_) name
  rw [Store.get?_putHash, if_neg]
  rintro rfl
  exact hkey (Or.inr (Or.inr (Or.inl ⟨targetId, rfl⟩)))

/-- The three filters after one of their entries has been updated. -/
structure Patched (u : Session) (first second third : StaticEntry) : Prop where
  texts : u.store.hashAt (pipelineKey "t1") = .ok (textsOf first second third)
  effort : u.effort = 3
  known : (on (getFilter deleteCompress.filterName) u.store).1 = .ok (some compressFilter)
  accepted : (u.storage.receive (.uninstall tenantAlice compressFilter)).1 = .ok ()

theorem patched_performAll (id : Nat) (e patched first second third : StaticEntry)
    (he : e.Storable) (patch : List (String × Json))
    (hstored : threeTexts.get? (Number.writeNatural id) = some e.toText)
    (hpatched : StaticEntry.ofMembers? (Json.mergeMembers e.jsonMembers patch) = some patched)
    (htexts : threeTexts.insert (Number.writeNatural id) patched.toText =
      textsOf first second third) :
    Patched (withTwoFilters.performAll alice {} (threeSet ++ [.updateStatic "t1" id patch]))
      first second third := by
  rcases performAll_threeSet with ⟨hthree, hready, heffort, hknown, haccepted⟩
  have hcounted := (orderly_performAll alice {} false withTwoFilters
    (orderly_of_fresh alice {} _ fresh_withTwoFilters (slashless_alice _)) threeSet
    (by rw [heffort]; decide)).counted
  rw [performAll_append, performAll_singleton]
  generalize withTwoFilters.performAll alice {} threeSet = s at *
  rw [perform_updateStatic alice {} s hcounted.unrefused "t1" id patch threeTexts hthree e he
    hstored patched hpatched hready, htexts]
  refine ⟨?_, ?_, ?_, ?_⟩
  · rw [store_withStore, Store.hashAt_putHash, if_pos rfl]
  · rw [effort, storage_withStore, monitors_withStore]
    exact heffort
  · rw [store_withStore, on_getFilter_putHash, hknown]
  · rw [storage_withStore]
    exact haccepted

/-- The patch that makes an entry one of another filter, which runs first from then on. -/
def filterPatch : List (String × Json) :=
  [("filter_name", .string "compress"), ("execution_order", .natural 0)]

/-- The patch that gives an entry another id. -/
def idPatch : List (String × Json) := [("policy_id", .natural 2)]

/-- The three filters, the last of which has been made another one. -/
def refiltered : Session :=
  withTwoFilters.performAll alice {} (threeSet ++ [.updateStatic "t1" 3 filterPatch])

/-- The three filters, the first of which has been given another id. -/
def relabelled : Session :=
  withTwoFilters.performAll alice {} (threeSet ++ [.updateStatic "t1" 1 idPatch])

theorem patched_refiltered :
    Patched refiltered (plainEntry 1 "compress" 1) (plainEntry 2 "encrypt" 2)
    (plainEntry 3 "compress" 0) := by
  have hname : Number.writeNatural 3 = "3" := by decide
  have hpatched : StaticEntry.ofMembers?
      (Json.mergeMembers (plainEntry 3 "encrypt" 3).jsonMembers filterPatch) =
        some (plainEntry 3 "compress" 0) := by decide +kernel
  refine patched_performAll 3 (plainEntry 3 "encrypt" 3) _ _ _ _
    (storable_plainEntry 3 "encrypt" 3 (by decide) (by decide)) filterPatch ?_ hpatched ?_
  · rw [hname, threeTexts, get?_textsOf.2.2]
  · rw [hname]
    exact insert_textsOf.2 _

theorem patched_relabelled : Patched relabelled (plainEntry 2 "compress" 1)
    (plainEntry 2 "encrypt" 2) (plainEntry 3 "encrypt" 3) := by
  have hname : Number.writeNatural 1 = "1" := by decide
  have hpatched : StaticEntry.ofMembers?
      (Json.mergeMembers (plainEntry 1 "compress" 1).jsonMembers idPatch) =
        some (plainEntry 2 "compress" 1) := by decide +kernel
  refine patched_performAll 1 (plainEntry 1 "compress" 1) _ _ _ _
    (storable_plainEntry 1 "compress" 1 (by decide) (by decide)) idPatch ?_ hpatched ?_
  · rw [hname, threeTexts, get?_textsOf.1]
  · rw [hname]
    exact insert_textsOf.1 _

/-- The filter is taken out where it was set and where an update has put it. -/
theorem takenOut_of_run_refiltered :
    (refiltered.store.entryAt? "t1" "1").map StaticEntry.filterName = some "compress" ∧
      (refiltered.store.entryAt? "t1" "2").map StaticEntry.filterName = some "encrypt" ∧
      (refiltered.store.entryAt? "t1" "3").map StaticEntry.filterName = some "compress" ∧
      ∃ ids, (refiltered.run (Engine.dispatch tenantAlice deleteCompress none).run).1 =
          .ok (.uninstalled ids) ∧
        refiltered.store.TakenOut
          (refiltered.run (Engine.dispatch tenantAlice deleteCompress none).run).2.store
          tenantAlice.id deleteCompress.filterName ids := by
  rcases patched_refiltered with ⟨htexts, heffort, hknown, haccepted⟩
  have hkeeps : ∀ operation ∈ threeSet ++ [.updateStatic "t1" 3 filterPatch],
      operation.KeepsIds := by
    simp [threeSet, filterPatch, Operation.KeepsIds, KeepsId]
  have hentry := Store.entryAt?_of_hashAt refiltered.store "t1"
  have hfirst := hentry "1" _ htexts _ (storable_plainEntry 1 "compress" 1 (by decide) (by decide))
    get?_textsOf.1
  have hsecond := hentry "2" _ htexts _ (storable_plainEntry 2 "encrypt" 2 (by decide) (by decide))
    get?_textsOf.2.1
  have hthird := hentry "3" _ htexts _ (storable_plainEntry 3 "compress" 0 (by decide) (by decide))
    get?_textsOf.2.2
  refine ⟨?_, ?_, ?_, ?_⟩
  · rw [hfirst]
    rfl
  · rw [hsecond]
    rfl
  · rw [hthird]
    rfl
  · rw [refiltered] at heffort hknown haccepted ⊢
    have htaken := takenOut_of_run alice {} withTwoFilters fresh_withTwoFilters (slashless_alice _)
      (threeSet ++ [.updateStatic "t1" 3 filterPatch]) hkeeps (by rw [heffort]; decide) tenantAlice
      deleteCompress rfl none compressFilter
    exact htaken hknown haccepted

/-- After an update of its id the entry of the filter stays, and that of another filter, which
    stands under that id, is taken out. -/
theorem not_takenOut_of_relabelled :
    (relabelled.storage.receive (.uninstall tenantAlice compressFilter)).1 = .ok () ∧
      (relabelled.run (Engine.dispatch tenantAlice deleteCompress none).run).1 =
        .ok (.uninstalled [2]) ∧
      ∀ ids, ¬ relabelled.store.TakenOut
        (relabelled.run (Engine.dispatch tenantAlice deleteCompress none).run).2.store
        tenantAlice.id deleteCompress.filterName ids := by
  rcases patched_relabelled with ⟨htexts, heffort, hknown, haccepted⟩
  have hcounted : relabelled.Counted :=
    (orderly_performAll alice {} false withTwoFilters
      (orderly_of_fresh alice {} _ fresh_withTwoFilters (slashless_alice _)) _
      (Nat.lt_of_le_of_lt (Nat.le_of_eq heffort) (by decide))).counted
  have hentry := Store.entryAt?_of_hashAt relabelled.store tenantAlice.id "1" _ htexts _
    (storable_plainEntry 2 "compress" 1 (by decide) (by decide)) get?_textsOf.1
  rcases hcounted.bound with ⟨n, -, hledger⟩
  rcases on_deleteMatching relabelled.store n hledger hcounted.legible tenantAlice.id
    deleteCompress.filterName _ htexts with ⟨entries, ids, hread, hids, hdone, hafter⟩
  rcases run_delete relabelled tenantAlice deleteCompress rfl none compressFilter hknown haccepted
    hcounted.unrefused with ⟨hresult, hstore⟩
  have hentries : entries =
      [plainEntry 2 "compress" 1, plainEntry 2 "encrypt" 2, plainEntry 3 "encrypt" 3] := by
    rw [values_textsOf] at hread
    refine Store.eq_of_texts _ ?_ _ hread
    simp only [List.mem_cons, List.not_mem_nil, or_false]
    rintro e (rfl | rfl | rfl) <;> exact storable_plainEntry _ _ _ (by decide) (by decide)
  have hremoved : ids = [2] := by
    have hsorted := List.mergeSort_perm entries fun a b : StaticEntry =>
      a.executionOrder ≤ b.executionOrder
    have hperm := (hsorted.filter fun e => e.filterName = deleteCompress.filterName).map
      StaticEntry.policyId
    rw [hids]
    refine List.perm_singleton.mp (hperm.trans ?_)
    rw [hentries]
    exact List.Perm.refl _
  subst hremoved
  refine ⟨haccepted, ?_, fun ids htaken => ?_⟩
  · rw [hresult, hdone]
    rfl
  · -- The entry is still there, and it is one of the filter.
    have hleft := htaken.left "1"
    have hstays := Store.entryAt?_of_hashAt _ tenantAlice.id "1" _ hafter
      (plainEntry 2 "compress" 1)
      (storable_plainEntry 2 "compress" 1 (by decide) (by decide)) ?_
    · rw [hstore, hstays, hentry, Option.filter_some, if_neg (by decide)] at hleft
      exact nomatch hleft
    · rw [Dict.get?_eraseAll Number.writeNatural, if_neg (by decide)]
      exact get?_textsOf.1

end Session

end StoragePolicy
