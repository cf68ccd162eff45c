import StoragePolicy.Proofs.Command.Deletion
import StoragePolicy.Proofs.Engine.Histories

/-!
# Looking up what is listed

A static policy is listed with the id that its entry carries, but it is looked up and deleted under
the name at which the entry stands. Where the two agree, a listed policy is found again by its
target and its id: the key that is put together from them is read back, the lookup gives what has
been listed, and the deletion takes that out of the list and nothing else.

Where they do not agree it is not found again. They agree as long as no update has given an entry
another id, and then no two listed policies have the same target and the same id.

## Main definitions

* `Session.Addressed`: Policies that are found again by their target and their id.

## Theorems

* `on_entry`: What is found under a target and an id.
* `addressed_iff_stands`: When a listed policy is found again.
* `lookups_of_reachedBy`: When that is so in all sessions that can be reached.
* `not_addressed_of_renumbered`: An update of an id hides an entry.
-/

namespace StoragePolicy

open Registry

/-- What is found under a target and an id is shown with the name of the target. -/
theorem Engine.on_entry (directory : Directory) (d : Store) (names : Dict String String)
    (hnames : (on directory.names d).1 = .ok names) (hd : d.Legible) (targetId : String)
    (hhash : d.HashAt (pipelineKey targetId)) (id : Nat) :
    on (Engine.entry directory targetId id) d =
      (match d.entryAt? targetId (Number.writeNatural id) with
        | some entry => .ok
            { id, targetId, targetName := Tenants.displayName names targetId, entry }
        | none => .error (.unknownEntry targetId id), d) := by
  have hnamed : on directory.names d = (.ok names, d) :=
    Prod.ext hnames (on_looks _ (looks_names directory) d)
  rcases hhash with ⟨fields, hfields⟩
  have hfield := Store.field?_of_hashAt d _ (Number.writeNatural id) fields hfields
  have hget := on_getStatic_hashAt targetId id d fields hfields
  rw [Engine.entry, Store.entryAt?, hfield]
  -- An entry that is stored can be read, so that there are two cases only.
  cases hstored : fields.get? (Number.writeNatural id) with
  | none =>
    rw [hstored] at hget
    exact on_bind_ok _ _ d d none hget
  | some text =>
    rw [hstored] at hfield hget
    rcases hd targetId _ text hfield with ⟨e, he, rfl⟩
    have hread : readEntry (pipelineKey targetId) e.toText = .ok e := by
      rw [readEntry, StaticEntry.ofText?_toText e he]
    have hfound : on (getStatic targetId id) d = (.ok (some e), d) := by
      rw [hget, Option.mapM_some, hread]
      rfl
    rw [on_bind_ok _ _ d d _ hfound, Option.bind_some, StaticEntry.ofText?_toText e he]
    dsimp only
    rw [Engine.view, on_bind_ok _ _ d d (Tenants.displayName names targetId)
      (on_bind_ok _ _ d d names hnamed)]
    rfl

namespace Session

/-- Policies that are found again by their target and their id: the lookup gives what is listed, and
    the deletion takes it out of the list and leaves everything else. -/
structure Addressed (directory : Directory) (s : Session) (v : StaticView) : Prop where
  found : s.run (Engine.ofRegistry (Engine.entry directory v.targetId v.id)).run = (.ok v, s)
  deleted : (s.run (Engine.ofRegistry (Engine.deleteEntry v.targetId v.id)).run).1 = .ok ()
  dropped : s.Dropped directory
    (s.run (Engine.ofRegistry (Engine.deleteEntry v.targetId v.id)).run).2 v

section Lookup

variable (directory : Directory) (s : Session) (hopen : s.Open) (n : Nat)
  (hledger : s.store.Ledger n) (hlegible : s.store.Legible) (views : List StaticView)
  (hviews : s.listing directory = .ok views) (v : StaticView) (hv : v ∈ views)

include hopen hledger hlegible hviews hv

/-- A listed policy that stands under its id is what the lookup gives. -/
theorem run_entry_of_stands (hstands : s.Stands v) :
    s.run (Engine.ofRegistry (Engine.entry directory v.targetId v.id)).run = (.ok v, s) := by
  rcases exists_of_mem_listing directory s hopen n hledger hlegible views hviews v hv with
    ⟨names, hnames, -, hview⟩
  have hname : v.targetName = Tenants.displayName names v.targetId :=
    congrArg StaticView.targetName hview
  have hentry := Engine.on_entry directory s.store names hnames hlegible v.targetId
    (hledger.pipelines v.targetId) v.id
  have hfound : s.store.entryAt? v.targetId (Number.writeNatural v.id) = some v.entry := hstands
  rw [hfound, ← hname] at hentry
  rw [run_ofRegistry s _ hopen, hentry]
  rfl

/-- A listed policy is found again by its target and its id exactly if it stands under this id. -/
theorem addressed_iff_stands : s.Addressed directory v ↔ s.Stands v := by
  refine ⟨fun h => h.dropped.stood, fun hstands => ?_⟩
  have hfield : (s.store.field? (pipelineKey v.targetId) (Number.writeNatural v.id)).isSome := by
    rcases Option.bind_eq_some_iff.mp hstands with ⟨text, htext, -⟩
    rw [htext]
    rfl
  have hrun := run_ofRegistry s (Engine.deleteEntry v.targetId v.id) hopen
  rw [Engine.on_deleteEntry s.store n hledger, if_pos hfield] at hrun
  have hdropped := (dropped_deleteEntry directory {} s hopen n hledger hlegible views hviews v hv
    hstands).2
  rw [run_deleteEntry directory {} s hopen n hledger] at hdropped
  have hfound := run_entry_of_stands directory s hopen n hledger hlegible views hviews v hv hstands
  refine ⟨hfound, ?_, ?_⟩
  · rw [hrun]
  · rw [hrun]
    exact hdropped

end Lookup

/-- Whatever has been asked of the service: the key of a listed policy is read as its target and its
    id, unless the target is empty or begins with a slash, and the policy is found again by them
    exactly if it stands under this id. If no update has given an entry another id, all do, and no
    two of them have the same target and the same id. -/
theorem lookups_of_reachedBy (directory : Directory) (settings : Engine.Settings) (s : Session)
    (h : ReachedBy directory settings (fun _ => True) s) (heffort : s.effort < Number.maxWord)
    (views : List StaticView) (hviews : s.listing directory = .ok views) :
    (∀ v ∈ views, v.targetId ≠ "" → v.targetId.toList.head? ≠ some '/' →
      Api.entryKey (Command.entryKey v.targetId v.id) = .ok (v.targetId, v.id) ∧
        (s.Addressed directory v ↔ s.Stands v)) ∧
      (ReachedBy directory settings Errand.KeepsIds s →
        (∀ v ∈ views, s.Stands v) ∧
          views.Pairwise fun v w => (v.targetId, v.id) ≠ (w.targetId, w.id)) := by
  have hstocked := stocked_of_reachedBy directory settings _ s h heffort
  have hopen := hstocked.unrefused
  have hlegible := hstocked.legible
  rcases hstocked.bound with ⟨n, -, hledger⟩
  constructor
  · intro v hv hnamed hslash
    have hid := (storable_of_listing directory s hopen n hledger hlegible views hviews v hv).1
    exact ⟨Command.entryKey_of_addressed v.targetId v.id hnamed hid hslash,
      addressed_iff_stands directory s hopen n hledger hlegible views hviews v hv⟩
  · intro hkeeps
    have hidentified := identified_of_reachedBy directory settings s hkeeps
    have hlabelled : s.store.Labelled := fun targetId name text htext => by
      rcases hidentified targetId name text htext with ⟨e, -, htoText, hname⟩
      exact ⟨e, htoText, hname⟩
    refine ⟨stands_of_labelled directory s hopen n hledger hlegible hlabelled views hviews, ?_⟩
    rw [listing_eq directory s hopen n hledger hlegible, Outcome.map_eq_ok] at hviews
    rcases hviews with ⟨names, -, rfl⟩
    exact List.pairwise_map.mpr (Store.distinct_listed StaticEntry.policyId s.store hidentified)

/-! ### A container with a colon in its name -/

section Odd

open Command

theorem reachedBy_withCompress (allows : Errand → Prop) (operations : List Operation)
    (hallows : ∀ operation ∈ operations, allows operation.errand) :
    ReachedBy alice {} allows (withCompress.performAll alice {} operations) :=
  reachedBy_performAll alice {} allows _ (.begin _ fresh_withCompress) operations hallows

/-- The policy of the container is found again. -/
theorem lookups_of_reachedBy_odd_container :
    ∃ views, (withCompress.performAll alice {} oddContainer).listing alice = .ok views ∧
      oddView ∈ views ∧
      Api.entryKey (entryKey oddView.targetId oddView.id) = .ok (oddView.targetId, oddView.id) ∧
      (withCompress.performAll alice {} oddContainer).Addressed alice oddView ∧
      views.Pairwise fun v w => (v.targetId, v.id) ≠ (w.targetId, w.id) := by
  rcases stored_oddContainer with ⟨hstored, heffort⟩
  rcases listed_of_stored oddContainer heffort oddView
    (storable_plainEntry 1 "compress" 1 (by decide) (by decide)) hstored (by decide +kernel) with
    ⟨-, hstands, views, hviews, hmem⟩
  have hkeeps := reachedBy_withCompress Errand.KeepsIds oddContainer fun operation hmem => by
    rw [List.mem_singleton.mp hmem]
    trivial
  rcases lookups_of_reachedBy alice {} _
    (reachedBy_withCompress (fun _ => True) oddContainer fun _ _ => trivial) heffort views hviews
    with ⟨heach, hidentified⟩
  rcases heach oddView hmem (by decide) (by decide) with ⟨hkey, haddressed⟩
  exact ⟨views, hviews, hmem, hkey, haddressed.mpr hstands, (hidentified hkeeps).2⟩

/-- A session in which the entry has been given another id. -/
def renumbered : Session :=
  withCompress.performAll alice {} (oddContainer ++ [.updateStatic oddView.targetId 1 idPatch])

/-- The policy as it is listed then. -/
def renumberedView : StaticView := { oddView with id := 2, entry := plainEntry 2 "compress" 1 }

/-- The entry has the other id, and stands where it stood. -/
theorem stored_renumbered : renumbered.store.hashAt (pipelineKey oddView.targetId) =
    .ok (Dict.ofList [("1", (plainEntry 2 "compress" 1).toText)]) ∧
      renumbered.effort < Number.maxWord := by
  rcases stored_oddContainer with ⟨hstored, heffort⟩
  have hopen := (reserves_of_reachedBy alice {} _ _
    (reachedBy_withCompress (fun _ => True) oddContainer fun _ _ => trivial)).unrefused
  have hready : (withCompress.performAll alice {} oddContainer).monitors.ready = [] := rfl
  -- Both texts of the entry are closed terms. The state is not, and is generalized before it is
  -- rewritten.
  have hname : Number.writeNatural 1 = "1" := by decide
  have hpatched : StaticEntry.ofMembers?
      (Json.mergeMembers (plainEntry 1 "compress" 1).jsonMembers idPatch) =
        some (plainEntry 2 "compress" 1) := by decide +kernel
  have hinsert : ∀ first second : String, (Dict.ofList [("1", first)]).insert "1" second =
      Dict.ofList [("1", second)] := Dict.insert_insert Dict.empty "1"
  rw [renumbered, performAll_append, performAll_singleton]
  generalize withCompress.performAll alice {} oddContainer = s at *
  rw [perform_updateStatic alice {} s hopen oddView.targetId 1 idPatch _ hstored oddView.entry
    (storable_plainEntry 1 "compress" 1 (by decide) (by decide))
    (by simp [oddView, Dict.get?_ofList]) _ hpatched hready]
  constructor
  · rw [store_withStore, Store.hashAt_putHash, if_pos rfl, hname]
    exact congrArg Except.ok (hinsert _ _)
  · rw [effort, storage_withStore, monitors_withStore]
    exact heffort

/-- After an update of its id the policy is listed with the new one, but under this one it is not
    found. -/
theorem not_addressed_of_renumbered :
    ReachedBy alice {} (fun _ => True) renumbered ∧ renumbered.effort < Number.maxWord ∧
      (∃ views, renumbered.listing alice = .ok views ∧ renumberedView ∈ views) ∧
      renumberedView.targetId ≠ "" ∧ renumberedView.targetId.toList.head? ≠ some '/' ∧
      (renumbered.run (Engine.ofRegistry
        (Engine.entry alice renumberedView.targetId renumberedView.id)).run).1 =
          .error (.unknownEntry renumberedView.targetId 2) ∧
      ¬ renumbered.Addressed alice renumberedView := by
  have hreached : ReachedBy alice {} (fun _ => True) renumbered :=
    reachedBy_withCompress _ _ fun _ _ => trivial
  -- The listing shows the id that the entry has, and the lookup takes the id under which it
  -- stands.
  rcases stored_renumbered with ⟨hstored, heffort⟩
  have hstocked := stocked_of_reachedBy alice {} _ _ hreached heffort
  have hlegible := hstocked.legible
  rcases hstocked.bound with ⟨n, -, hledger⟩
  have hentry := Store.entryAt?_of_hashAt renumbered.store oddView.targetId "1" _ hstored _
    (storable_plainEntry 2 "compress" 1 (by decide) (by decide)) (by simp [Dict.get?_ofList])
  rcases exists_listing alice renumbered hstocked.unrefused n hledger hlegible
    (Dict.ofList [("t1", "alice")]) rfl oddView.targetId _ _ hentry with ⟨views, hviews, hmem⟩
  have hview : StaticView.ofEntry (Dict.ofList [("t1", "alice")])
      (oddView.targetId, plainEntry 2 "compress" 1) = renumberedView := by decide +kernel
  rw [hview] at hmem
  have hnone : renumbered.store.entryAt? oddView.targetId (Number.writeNatural 2) = none := by
    have hname : Number.writeNatural 2 = "2" := by decide
    rw [Store.entryAt?, Store.field?_of_hashAt _ _ _ _ hstored, hname]
    simp [Dict.get?_ofList]
  refine ⟨hreached, heffort, ⟨views, hviews, hmem⟩, by decide, by decide, ?_, fun haddressed => ?_⟩
  · have hlookup := Engine.on_entry alice renumbered.store (Dict.ofList [("t1", "alice")]) rfl
      hlegible oddView.targetId (hledger.pipelines oddView.targetId) 2
    rw [hnone] at hlookup
    have hrun := run_ofRegistry renumbered (Engine.entry alice oddView.targetId 2)
      hstocked.unrefused
    rw [hlookup] at hrun
    exact congrArg Prod.fst hrun
  -- Were it addressed, an entry would stand under the new id.
  · have hstood : renumbered.store.entryAt? oddView.targetId (Number.writeNatural 2) = _ :=
      haddressed.dropped.stood
    rw [hnone] at hstood
    cases hstood

end Odd

end Session

end StoragePolicy
