import StoragePolicy.Proofs.Engine.Attempts
import StoragePolicy.Proofs.Engine.Errands

/-!
# What an action changes

An action on a target ends in one of five ways, and each leaves its own mark on the store. If the
filter cannot be read or is not known, nothing happens at all. If it is to be set, one entry is
added to the pipeline of the target and the counter goes on by one, and that does not hang on what
the storage side answers afterwards. If it is to be deleted and the storage side refuses, the store
stays as it is. And if it agrees, the entries of the filter are gone from the pipeline, and the
counter is set back if with them the last id has gone.

The reservation that is made in between is gone in every case, as is its hash.

## Main definitions

* `StaticEntry.Carries`: The entry of an action under an id.
* `Session.Footprint`: What an action on a target does to a session.

## Theorems

* `gains_withEntry`: What storing an entry under a new id does to the store.
* `footprint_set`, `footprint_refused`, `footprint_deleted`: What an action does whose filter is
  known.
* `footprint_of_reached`: What an action does after all that may have been asked of the service.
-/

namespace StoragePolicy

open Registry

/-- The entry of an action under an id: it runs after all entries with smaller ids, and for the rest
    it says what the action and the object filter say. -/
structure StaticEntry.Carries (e : StaticEntry) (id : Nat) (action : FilterAction)
    (objectFilter : Option ObjectFilter) : Prop where
  policyId : e.policyId = id
  executionOrder : e.executionOrder = id
  filterName : e.filterName = action.filterName
  objectType : e.objectType = objectFilter.bind ObjectFilter.objectType
  objectSize : e.objectSize = objectFilter.bind ObjectFilter.objectSize
  server : e.server = action.server
  reverse : e.reverse = none
  params : e.params = action.params.getD ""
  callable : e.callable = action.callable

namespace Store

variable (d : Store)

/-- If nothing is reserved there is no hash of reservations. -/
theorem get?_reservationKey (hreserves : d.Reserves none) (htelling : d.Telling) :
    d.get? reservationKey = none := by
  refine get?_of_telling d htelling _ noticed_reservationKey fun name => ?_
  rw [field?_of_hashAt d _ name _ hreserves.reservations]
  exact Dict.get?_empty name

/-- Storing an entry under a new id adds it to its pipeline and moves the counter. -/
theorem gains_withEntry (n : Nat) (h : d.Ledger n) (hroom : n < Number.maxWord)
    (hreserves : d.Reserves none) (htelling : d.Telling) (targetId : String) (entry : StaticEntry)
    (hentry : entry.Storable) (hid : entry.policyId = n + 1) :
    d.Gains (Session.withEntry d targetId (n + 1) entry) targetId n entry := by
  rcases h.reservations with ⟨reserved, hreserved⟩
  have hnext := exec_nextId d n reserved h.counts hroom hreserved
  have hput : (putStaticCall targetId (n + 1) entry).Usual := hid ▸ .putStatic targetId entry
  -- The reservation that is made in between has disappeared with its hash.
  have hafter : (Session.withEntry d targetId (n + 1) entry).get? reservationKey = none := by
    refine get?_reservationKey _ ?_ ?_
    · rcases reserves_nextId d hreserves with ⟨id, hanswer, htaken⟩ | ⟨e, hanswer, -⟩
      · rw [hnext] at hanswer
        cases hanswer
        have huse : (Use.putStatic targetId entry).call (n + 1) =
            some (putStaticCall targetId (n + 1) entry) := by
          rw [Use.call, ← hid]
        exact (reserves_use _ _ htaken _ _ huse).2
      · rw [hnext] at hanswer
        cases hanswer
    · exact telling_exec _ _ (neat_of_usual _ hput)
        (telling_exec d _ (neat_of_usual _ .nextId) htelling)
  have hcounter : (Session.withEntry d targetId (n + 1) entry).get? counterKey =
      some (.scalar (Number.writeNatural (n + 1))) := by
    have hkeys : counterKey ∉ (putStaticCall targetId (n + 1) entry).changed := by
      simp [Call.changed, Mutation.key, release, counterKey_ne_reservationKey,
        (pipelineKey_ne_counterKey targetId).symm]
    rw [Session.withEntry, get?_exec _ _ _ hkeys, hnext, withNextId, get?_putHash,
      if_neg counterKey_ne_reservationKey, Dict.get?_insert, if_pos rfl]
  have hfield := fun name => field?_withEntry d n h hroom targetId entry targetId name
  refine ⟨h.counts, hcounter, field?_of_fresh d n h targetId (n + 1) (Nat.lt_succ_self n), ?_, ?_,
    fun name hname => ?_, fun key hkey hpipeline => ?_⟩
  · rw [hfield, if_pos ⟨rfl, rfl⟩]
  · rw [entryAt?_withEntry d n h hroom targetId entry hentry, if_pos ⟨rfl, rfl⟩]
  · rw [hfield, if_neg fun hboth => hname hboth.2]
  · by_cases hreservation : key = reservationKey
    · rw [hreservation, hafter, get?_reservationKey d hreserves htelling]
    · exact Session.get?_withEntry d _ _ _ key hkey hreservation hpipeline

end Store

namespace Session

/-- What an action on a target does to a session, and what comes of it, by what is found of its
    filter, by what it is to do with it and by what the storage side answers. -/
structure Footprint (s : Session) (target : Target) (action : FilterAction)
    (objectFilter : Option ObjectFilter) (result : Except EngineError Engine.Outcome)
    (t : Session) : Prop where
  monitors : t.monitors = s.monitors
  unread : ∀ e, (on (getFilter action.filterName) s.store).1 = .error e →
    result = .error e ∧ t = s
  unknown : (on (getFilter action.filterName) s.store).1 = .ok none →
    result = .error (.unknownFilter action.filterName) ∧ t = s
  set : ∀ filter, (on (getFilter action.filterName) s.store).1 = .ok (some filter) →
    action.verb = .set → ∃ n entry, entry.Carries (n + 1) action objectFilter ∧
      s.store.Gains t.store target.id n entry ∧
      t.storage.calls = s.storage.calls ++ [.install target filter entry] ∧
      ((s.storage.receive (.install target filter entry)).1 = .ok () →
        result = .ok (.installed (n + 1))) ∧
      ∀ e, (s.storage.receive (.install target filter entry)).1 = .error e →
        result = .error (.ofInstaller e)
  refused : ∀ filter, (on (getFilter action.filterName) s.store).1 = .ok (some filter) →
    action.verb = .delete → ∀ e, (s.storage.receive (.uninstall target filter)).1 = .error e →
      result = .error (.ofInstaller e) ∧ t.store = s.store ∧
        t.storage.calls = s.storage.calls ++ [.uninstall target filter]
  deleted : ∀ filter, (on (getFilter action.filterName) s.store).1 = .ok (some filter) →
    action.verb = .delete → (s.storage.receive (.uninstall target filter)).1 = .ok () →
      ∃ ids, result = .ok (.uninstalled ids) ∧
        s.store.Sheds t.store target.id action.filterName ids ∧
        t.storage.calls = s.storage.calls ++ [.uninstall target filter]

section Dispatch

variable (s : Session) (target : Target) (action : FilterAction)
  (objectFilter : Option ObjectFilter)

/-- An action does not concern the monitors. -/
theorem monitors_dispatch :
    (s.run (Engine.dispatch target action objectFilter).run).2.monitors = s.monitors := by
  refine run_invariant (fun c => ∀ t, (exec c t).2.monitors = t.monitors)
    (fun t => t.monitors = s.monitors) (fun c t hc ht => (hc t).trans ht) _ ?_ s rfl
  have hregistry : ∀ {α : Type} (kind : Store.Call → Prop) (p : Registry α), p.run.Makes kind →
      (Engine.ofRegistry p).run.Makes fun c => ∀ t, (exec c t).2.monitors = t.monitors :=
    fun kind p hp => Engine.makes_ofRegistry _ p
      (Program.makes_mono kind _ p.run hp fun _ _ _ => rfl)
  refine Engine.makes_then _ _ _ (hregistry _ _ (idle_requireFilter _)) fun filter => ?_
  cases action.verb with
  | set =>
    refine Engine.makes_then _ _ _ (hregistry (fun _ => True) _ (makes_ask _ _ trivial))
      fun id => ?_
    refine Engine.makes_then _ _ _ (hregistry (fun _ => True) _ (makes_ask _ _ trivial))
      fun _ => ?_
    exact Engine.makes_then _ _ _ ⟨fun _ => rfl, fun _ => trivial⟩ fun _ => Engine.makes_done _ _
  | delete =>
    refine Engine.makes_then _ _ _ ⟨fun _ => rfl, fun _ => trivial⟩ fun _ => ?_
    exact Engine.makes_then _ _ _ (hregistry _ _ (idle_deleteMatching _ _))
      fun _ => Engine.makes_done _ _

variable (hs : s.Intact)

include hs

/-- If a filter cannot be read or is not known, nothing is done. -/
theorem run_dispatch_none :
    (∀ e, (on (getFilter action.filterName) s.store).1 = .error e →
      s.run (Engine.dispatch target action objectFilter).run = (.error e, s)) ∧
    ((on (getFilter action.filterName) s.store).1 = .ok none →
      s.run (Engine.dispatch target action objectFilter).run =
        (.error (.unknownFilter action.filterName), s)) := by
  have hrequire : on (requireFilter action.filterName) s.store = _ :=
    on_bind (getFilter action.filterName) _ s.store
  have hmissing := run_dispatch_missing s hs.stocked.unrefused target action objectFilter
  rw [hrequire] at hmissing
  generalize on (getFilter action.filterName) s.store = outcome at hmissing ⊢
  rcases outcome with ⟨result, d⟩
  refine ⟨fun e he => ?_, fun hnone => ?_⟩
  · cases he
    exact hmissing e rfl
  · cases hnone
    exact hmissing (.unknownFilter action.filterName) rfl

variable (filter : FilterSpec)
  (hfilter : (on (getFilter action.filterName) s.store).1 = .ok (some filter))

include hfilter

/-- Setting a filter adds its entry, and then the storage side is asked. -/
theorem footprint_set (heffort : s.effort < Number.maxWord) (hsized : Engine.Sized objectFilter)
    (hverb : action.verb = .set) :
    ∃ n entry, entry.Carries (n + 1) action objectFilter ∧
      s.store.Gains (s.run (Engine.dispatch target action objectFilter).run).2.store target.id n
        entry ∧
      (s.run (Engine.dispatch target action objectFilter).run).2.storage.calls =
        s.storage.calls ++ [.install target filter entry] ∧
      ((s.storage.receive (.install target filter entry)).1 = .ok () →
        (s.run (Engine.dispatch target action objectFilter).run).1 = .ok (.installed (n + 1))) ∧
      ∀ e, (s.storage.receive (.install target filter entry)).1 = .error e →
        (s.run (Engine.dispatch target action objectFilter).run).1 = .error (.ofInstaller e) := by
  rcases hs.stocked.bound with ⟨n, hn, hledger⟩
  have hroom : n < Number.maxWord := Nat.lt_of_le_of_lt hn heffort
  have hname := name_of_getFilter _ _ _ hfilter
  rcases run_setFilter s hs.stocked.unrefused n hledger hroom target filter
    (fun id => Engine.newEntry id filter.name action objectFilter) (fun _ => rfl) with ⟨-, hrun⟩
  rw [run_dispatch_set s target action objectFilter filter hfilter hs.stocked.unrefused hverb, hrun]
  have hgains := Store.gains_withEntry s.store n hledger hroom hs.unreserved.store hs.telling
    target.id (Engine.newEntry (n + 1) filter.name action objectFilter)
    (Engine.storable_newEntry (n + 1) filter.name action objectFilter hroom hsized) rfl
  refine ⟨n, Engine.newEntry (n + 1) filter.name action objectFilter,
    ⟨rfl, rfl, hname, rfl, rfl, rfl, rfl, rfl, rfl⟩, hgains, rfl, fun haccepted => ?_,
    fun e hrefused => ?_⟩
  · rw [haccepted]
    rfl
  · rw [hrefused]
    rfl

/-- If the storage side agrees to delete a filter, its entries are taken out of the pipeline. -/
theorem footprint_deleted (hverb : action.verb = .delete)
    (haccepted : (s.storage.receive (.uninstall target filter)).1 = .ok ()) :
    ∃ ids, (s.run (Engine.dispatch target action objectFilter).run).1 = .ok (.uninstalled ids) ∧
      s.store.Sheds (s.run (Engine.dispatch target action objectFilter).run).2.store target.id
        action.filterName ids ∧
      (s.run (Engine.dispatch target action objectFilter).run).2.storage.calls =
        s.storage.calls ++ [.uninstall target filter] := by
  rcases hs.stocked.bound with ⟨n, -, hledger⟩
  rcases Store.sheds_deleteMatching s.store n hledger hs.stocked.legible hs.labelled hs.telling
    target.id action.filterName with ⟨ids, hdone, hsheds⟩
  rw [run_dispatch_delete s target action objectFilter filter hfilter hs.stocked.unrefused hverb
    haccepted, hdone]
  exact ⟨ids, rfl, hsheds, rfl⟩

end Dispatch

/-- What an action does to a session that is intact. -/
theorem footprint_dispatch (s : Session) (hs : s.Intact) (heffort : s.effort < Number.maxWord)
    (target : Target) (action : FilterAction) (objectFilter : Option ObjectFilter)
    (hsized : Engine.Sized objectFilter) :
    s.Footprint target action objectFilter
      (s.run (Engine.dispatch target action objectFilter).run).1
      (s.run (Engine.dispatch target action objectFilter).run).2 where
  monitors := monitors_dispatch s target action objectFilter
  unread := fun e he => by
    rw [(run_dispatch_none s target action objectFilter hs).1 e he]
    exact ⟨rfl, rfl⟩
  unknown := fun hnone => by
    rw [(run_dispatch_none s target action objectFilter hs).2 hnone]
    exact ⟨rfl, rfl⟩
  set := fun filter hfilter hverb =>
    footprint_set s target action objectFilter hs filter hfilter heffort hsized hverb
  refused := fun filter hfilter hverb e hrefused => by
    rw [run_dispatch_refused s target action objectFilter filter hfilter hs.stocked.unrefused hverb
      e hrefused]
    exact ⟨rfl, rfl, rfl⟩
  deleted := fun filter hfilter hverb haccepted =>
    footprint_deleted s target action objectFilter hs filter hfilter hverb haccepted

/-- Whatever has been asked of the service, as long as no update has given an entry another id: what
    an action does is its footprint, whatever the storage side answers. -/
theorem footprint_of_reached (directory : Directory) (settings : Engine.Settings) (s : Session)
    (h : Reached directory settings s) (heffort : s.effort < Number.maxWord) (target : Target)
    (action : FilterAction) (objectFilter : Option ObjectFilter)
    (hsized : Engine.Sized objectFilter) :
    s.Footprint target action objectFilter
      (s.run (Engine.dispatch target action objectFilter).run).1
      (s.run (Engine.dispatch target action objectFilter).run).2 :=
  footprint_dispatch s (intact_of_reached directory settings s h heffort) heffort target action
    objectFilter hsized

/-- A session in which three filters have been set on a tenant and the catalog has been added to. -/
def threeSetSession : Session :=
  ((withTwoFilters.run (Errand.program alice {} (.request
    (.deploy "TENANT alice DO SET compress, SET encrypt, SET compress")))).2.run
      (Errand.program alice {} (.register compressFilter))).2.settle {}

/-- The entries of one of the filters are taken out, and that is all. -/
theorem footprint_of_reached_three_set :
    Reached alice {} threeSetSession ∧ threeSetSession.effort = 3 ∧
      ∃ ids, (threeSetSession.run (Engine.dispatch tenantAlice deleteCompress none).run).1 =
          .ok (.uninstalled ids) ∧
        threeSetSession.store.Sheds
          (threeSetSession.run (Engine.dispatch tenantAlice deleteCompress none).run).2.store
          tenantAlice.id "compress" ids ∧
        (threeSetSession.run
            (Engine.dispatch tenantAlice deleteCompress none).run).2.storage.calls =
          threeSetSession.storage.calls ++ [.uninstall tenantAlice compressFilter] := by
  have hvacant : ∀ key, Guarded key → withTwoFilters.store.get? key = none := by
    refine fun key hkey => get?_ofList_eq_none _ key fun e he heq => ?_
    rw [← heq] at hkey
    rcases List.mem_cons.mp he with rfl | he
    · exact not_guarded_filterKey "compress" hkey
    · rw [List.mem_singleton.mp he] at hkey
      exact not_guarded_filterKey "encrypt" hkey
  have hreached : Reached alice {} threeSetSession :=
    .settle _ (.errand _ _ trivial (.errand _ _ trivial
      (.begin withTwoFilters fresh_withTwoFilters hvacant)))
  have hfacts : threeSetSession.effort = 3 ∧
      (on (getFilter deleteCompress.filterName) threeSetSession.store).1 =
        .ok (some compressFilter) ∧
      (threeSetSession.storage.receive (.uninstall tenantAlice compressFilter)).1 = .ok () := by
    decide +kernel
  rcases hfacts with ⟨heffort, hknown, haccepted⟩
  have hfootprint := footprint_of_reached alice {} threeSetSession hreached
    (by rw [heffort]; decide) tenantAlice deleteCompress none fun _ hsize => by cases hsize
  exact ⟨hreached, heffort, hfootprint.deleted compressFilter hknown rfl haccepted⟩

end Session

end StoragePolicy
