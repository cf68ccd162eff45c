import StoragePolicy.Proofs.Engine.Errands
import StoragePolicy.Proofs.Engine.Supplied
import StoragePolicy.Proofs.Registry.Standing

/-!
# Sessions by what is asked in them

What can be said of the entries depends on what updates have done to them. So sessions are told
apart by the errands that are allowed in them: all of them, or all but the updates that do
something to a certain field.

Whatever is asked, entries can be read and pipelines are hashes, so they can be listed, and the list
of one target is a part of the list of all. If no update has named the execution order of an entry,
all entries stand under the names of their execution orders, and the list ascends strictly.

## Main definitions

* `Session.ReachedBy`: The sessions that can be reached by errands that are allowed.
* `Session.Errand.Preserves`: Errands after which what stands in pipelines fits there.
* `Session.Errand.KeepsOrder`: Errands that do not name the execution order of an entry.

## Theorems

* `reachedBy_performAll`: Operations one after the other.
* `supplied_of_reachedBy`, `reserves_of_reachedBy`: What holds however long a session goes on.
* `stocked_of_reachedBy`: What holds as long as its effort can be held in a machine word.
* `legible_of_reachedBy`, `ordered_of_reachedBy`, `identified_of_reachedBy`: What this says of the
  entries in pipelines.
* `listings_of_reachedBy`: The list of all entries, and the list of one target.
-/

namespace StoragePolicy

open Registry

namespace Session

/-- The errand that comes to an operation. -/
def Operation.errand : Operation → Errand
  | .deploy rules => .request (.deploy rules)
  | .deleteStatic targetId id => .request (.deleteEntry targetId id)
  | .deleteDynamic id => .request (.removePolicy id)
  | .updateStatic targetId id patch => .request (.updateEntry targetId id patch)
  | .respawn id => .request (.respawn id)
  | .reload => .reload
  | .shutdown => .shutdown
  | .ingest metrics => .request (.ingest metrics)

theorem Operation.operation?_errand (operation : Operation) :
    operation.errand.operation? = some operation := by
  cases operation <;> rfl

section Reached

variable (directory : Directory) (settings : Engine.Settings) (allows : Errand → Prop)

/-- The sessions that can be reached by errands that are allowed. In between monitors may read
    samples, be it single ones or all that they have got. -/
inductive ReachedBy : Session → Prop where
  | begin (s : Session) (hfresh : s.Fresh) : ReachedBy s
  | errand (s : Session) (errand : Errand) (hallows : allows errand) (h : ReachedBy s) :
    ReachedBy (s.run (errand.program directory settings)).2
  | turn (s : Session) (serial : Nat) (task : MonitorTask) (m : Monitor) (sample : Sample)
    (htask : s.monitors.tasks.get? serial = some task) (h : ReachedBy s) :
    ReachedBy (s.run (Engine.turn settings task.handle task.binding m sample)).2
  | settle (s : Session) (h : ReachedBy s) : ReachedBy (s.settle settings)

/-- Operations one after the other reach a session that can be reached. -/
theorem reachedBy_performAll (s : Session) (h : ReachedBy directory settings allows s)
    (operations : List Operation) (hallows : ∀ operation ∈ operations, allows operation.errand) :
    ReachedBy directory settings allows (s.performAll directory settings operations) := by
  induction operations generalizing s with
  | nil => exact h
  | cons operation rest ih =>
    refine ih _ ?_ fun other hother => hallows other (List.mem_cons_of_mem _ hother)
    have hnext := ReachedBy.errand s operation.errand (hallows operation List.mem_cons_self) h
    rw [snd_run_errand directory settings s _ operation operation.operation?_errand] at hnext
    exact .settle _ hnext

/-- No id stays reserved, and pipelines are hashes, whatever has been asked. -/
theorem reserves_of_reachedBy (s : Session) (h : ReachedBy directory settings allows s) :
    s.Reserves none := by
  induction h with
  | begin s hfresh => exact reserves_of_fresh s hfresh
  | errand s errand _ _ ih =>
    cases hoperation : errand.operation? with
    | none =>
      have haloof := aloof_errand directory settings errand hoperation
      exact reserves_of_untouched s _ ih (untouched_run _ haloof s ih.unrefused)
    | some operation =>
      rw [snd_run_errand directory settings s errand operation hoperation]
      exact reserves_program directory settings s ih operation
  | turn s serial task m sample _ _ ih =>
    exact reserves_run none _ (Engine.spends_turn settings task.handle task.binding m sample) s ih
  | settle s _ ih => exact reserves_settle settings s ih

/-- What holds where a session begins, and is kept by what is asked in it, holds throughout. What
    does not hang on the catalog is kept by all errands that do not concern policies. -/
theorem invariant_of_reachedBy (inv : Session → Prop) (hbegin : ∀ s : Session, s.Fresh → inv s)
    (huntouched : ∀ s t : Session, inv s → s.Untouched t → inv t)
    (hprogram : ∀ s errand operation, allows errand → errand.operation? = some operation →
      inv s → inv (s.run (operation.program directory settings)).2)
    (hturn : ∀ (s : Session) (serial : Nat) (task : MonitorTask) (m : Monitor) (sample : Sample),
      s.monitors.tasks.get? serial = some task → inv s →
        inv (s.run (Engine.turn settings task.handle task.binding m sample)).2)
    (hsettle : ∀ s, inv s → inv (s.settle settings)) (s : Session)
    (h : ReachedBy directory settings allows s) : inv s := by
  induction h with
  | begin s hfresh => exact hbegin s hfresh
  | errand s errand hallowed h ih =>
    cases hoperation : errand.operation? with
    | none =>
      have haloof := aloof_errand directory settings errand hoperation
      have hopen := (reserves_of_reachedBy directory settings allows s h).unrefused
      exact huntouched s _ ih (untouched_run _ haloof s hopen)
    | some operation =>
      rw [snd_run_errand directory settings s errand operation hoperation]
      exact hprogram s errand operation hallowed hoperation ih
  | turn s serial task m sample htask _ ih => exact hturn s serial task m sample htask ih
  | settle s _ ih => exact hsettle s ih

/-- The store is in order, whatever has been asked, as long as the effort of the session can be held
    in a machine word. -/
theorem stocked_of_reachedBy (s : Session) (h : ReachedBy directory settings allows s) :
    s.effort < Number.maxWord → s.Stocked := by
  refine invariant_of_reachedBy directory settings allows
    (fun t => t.effort < Number.maxWord → t.Stocked) (fun t ht _ => stocked_of_fresh t ht) ?_ ?_ ?_
    ?_ s h
  · intro t u ht hu heffort
    rw [effort_of_untouched t u hu] at heffort
    exact stocked_of_untouched t u (ht heffort) hu
  · intro t errand operation _ _ ht heffort
    have hupholds := upholds_program settings directory t operation
    exact hupholds.stocked heffort (ht (Nat.lt_of_le_of_lt hupholds.effort heffort))
  · intro t serial task m sample htask ht heffort
    have hbefore := ht (Nat.lt_of_le_of_lt (effort_run _ t) heffort)
    exact (goes_turn settings task.handle task.binding (hbefore.sized serial task htask) m sample
      t).stocked heffort hbefore
  · intro t ht heffort
    have hupholds := upholds_settle settings t
    exact hupholds.stocked heffort (ht (Nat.lt_of_le_of_lt hupholds.effort heffort))

/-! ### What fits into pipelines -/

/-- Errands after which what stands in pipelines fits there. Only an update can do otherwise. -/
def Errand.Preserves (fits : String → String → Prop) (errand : Errand) : Prop :=
  ∀ targetId id patch, errand = .request (.updateEntry targetId id patch) →
    Registry.Preserves fits (Number.writeNatural id) patch

theorem Errand.eq_of_operation? (errand : Errand) (targetId : String) (id : Nat)
    (patch : List (String × Json))
    (h : errand.operation? = some (.updateStatic targetId id patch)) :
    errand = .request (.updateEntry targetId id patch) := by
  cases errand with
  | request request => cases request <;> cases h; rfl
  | register filter => cases h
  | reload => cases h
  | shutdown => cases h

theorem supplied_of_untouched (fits : String → String → Prop) (s t : Session) (h : s.Supplied fits)
    (ht : s.Untouched t) : t.Supplied fits where
  unrefused := ht.unrefused
  fitting := Store.fitting_sameGuarded _ _ ht.store _ h.fitting
  sized := by
    rw [ht.monitors]
    exact h.sized

/-- What fits into pipelines as it is put there, and stays so under the patches that are allowed,
    is all that stands there. -/
theorem supplied_of_reachedBy (fits : String → String → Prop)
    (hissued : ∀ name text, StaticEntry.Issued name text → fits name text)
    (hallows : ∀ errand, allows errand → errand.Preserves fits) (s : Session)
    (h : ReachedBy directory settings allows s) : s.Supplied fits := by
  refine invariant_of_reachedBy directory settings allows (Supplied fits)
    (supplied_of_fresh fits) (supplied_of_untouched fits) ?_ ?_
    (supplied_settle fits settings hissued) s h
  · intro t errand operation hallowed hoperation ht
    refine supplied_program fits settings hissued directory operation ?_ t ht
    rintro targetId id patch rfl
    exact hallows errand hallowed targetId id patch
      (errand.eq_of_operation? targetId id patch hoperation)
  · exact fun t serial task m sample htask ht => supplied_turn fits settings hissued task.handle
      task.binding (ht.sized serial task htask) m sample t ht

end Reached

end Session

/-! ### Entries that can be read, and entries in order -/

/-- The execution order of an entry is one of its members. -/
theorem StaticEntry.find?_executionOrder (e : StaticEntry) :
    Json.find? "execution_order" e.jsonMembers = some (.natural e.executionOrder) := by
  simp [Json.find?, jsonMembers]

namespace Registry

/-- Whatever a patch makes can be held. -/
theorem preserves_storable (name : String) (patch : List (String × Json)) :
    Preserves (fun _ text => ∃ e : StaticEntry, e.Storable ∧ text = e.toText) name patch :=
  fun key text e _ hpatched => ⟨e, storable_patchedEntry key text patch e hpatched, rfl⟩

/-- A patch that does not change the number under which an entry stands. -/
theorem preserves_namedBy (number : StaticEntry → Nat) (name : String)
    (patch : List (String × Json))
    (hpatch : ∀ key (e patched : StaticEntry), e.Storable →
      name = Number.writeNatural (number e) → patchedEntry key e.toText patch = .ok patched →
        number patched = number e) : Preserves (StaticEntry.NamedBy number) name patch := by
  rintro key text patched ⟨e, he, rfl, hname⟩ hpatched
  refine ⟨patched, storable_patchedEntry key e.toText patch patched hpatched, rfl, ?_⟩
  rw [hpatch key e patched he hname hpatched, hname]

/-- A patch that does not name the execution order of an entry leaves it as it was. -/
theorem executionOrder_patchedEntry (key : String) (e : StaticEntry) (he : e.Storable)
    (patch : List (String × Json)) (hpatch : "execution_order" ∉ patch.map Prod.fst)
    (patched : StaticEntry) (h : patchedEntry key e.toText patch = .ok patched) :
    patched.executionOrder = e.executionOrder := by
  have hfound := find?_patchedEntry e.toText patch e patched (StaticEntry.ofText?_toText e he) h
    "execution_order" hpatch
  rw [StaticEntry.find?_executionOrder, StaticEntry.find?_executionOrder] at hfound
  simpa [Json.natural] using hfound

end Registry

namespace Session

/-- Errands that do not name the execution order of an entry. Only an update can do otherwise. -/
def Errand.KeepsOrder : Errand → Prop
  | .request (.updateEntry _ _ patch) => "execution_order" ∉ patch.map Prod.fst
  | _ => True

section Entries

variable (directory : Directory) (settings : Engine.Settings)

/-- All entries can be read, whatever has been asked. -/
theorem legible_of_reachedBy (allows : Errand → Prop) (s : Session)
    (h : ReachedBy directory settings allows s) : s.store.Legible := by
  refine (supplied_of_reachedBy directory settings allows _ ?_ ?_ s h).fitting
  · rintro _ _ ⟨e, he, htext, -⟩
    exact ⟨e, he, htext⟩
  · exact fun _ _ _ id patch _ => preserves_storable (Number.writeNatural id) patch

/-- Entries stand under their execution orders as long as no update has named one. -/
theorem ordered_of_reachedBy (s : Session)
    (h : ReachedBy directory settings Errand.KeepsOrder s) :
    s.store.Fitting (StaticEntry.NamedBy StaticEntry.executionOrder) := by
  refine (supplied_of_reachedBy directory settings _ _ ?_ ?_ s h).fitting
  · rintro _ _ ⟨e, he, htext, rfl, horder⟩
    exact ⟨e, he, htext, by rw [horder]⟩
  · rintro _ hkeeps targetId id patch rfl
    exact preserves_namedBy _ _ patch fun key e patched he _ =>
      executionOrder_patchedEntry key e he patch hkeeps patched

/-- Entries stand under their ids as long as no update has changed one. -/
theorem identified_of_reachedBy (s : Session)
    (h : ReachedBy directory settings Errand.KeepsIds s) :
    s.store.Fitting (StaticEntry.NamedBy StaticEntry.policyId) := by
  refine (supplied_of_reachedBy directory settings _ _ ?_ ?_ s h).fitting
  · rintro _ _ ⟨e, he, htext, hname, -⟩
    exact ⟨e, he, htext, hname⟩
  · rintro _ hkeeps targetId id patch rfl
    refine preserves_namedBy _ _ patch fun key e patched he hname hpatched => ?_
    have hid := Number.writeNatural_inj _ _ hname
    exact policyId_patchedEntry key e he patch (hid ▸ hkeeps) patched hpatched

/-- Pipelines are hashes, whatever has been asked. -/
theorem pipelines_of_reachedBy (allows : Errand → Prop) (s : Session)
    (h : ReachedBy directory settings allows s) (targetId : String) :
    s.store.HashAt (pipelineKey targetId) :=
  (reserves_of_reachedBy directory settings allows s h).store.hashed _
    (Store.own_pipelineKey targetId) (pipelineKey_ne_counterKey targetId)

/-- Whatever has been asked of the service: the list of all entries has one element for each of
    them and ascends by their execution orders, and the list of one target is the part of it that
    is of this target, in the same order. If no update has named an execution order, the list
    ascends strictly. -/
theorem listings_of_reachedBy (s : Session) (h : ReachedBy directory settings (fun _ => True) s) :
    ∃ listed places, on (listStatic none) s.store = (.ok listed, s.store) ∧
      s.store.Enumerates listed places ∧
      (listed.Pairwise fun a b => a.2.executionOrder ≤ b.2.executionOrder) ∧
      (∀ targetId, on (listStatic (some targetId)) s.store =
        (.ok (listed.filter fun e => e.1 = targetId), s.store)) ∧
      (ReachedBy directory settings Errand.KeepsOrder s → s.effort < Number.maxWord →
        listed.Pairwise fun a b => a.2.executionOrder < b.2.executionOrder) := by
  have hlegible := legible_of_reachedBy directory settings _ s h
  have hpipelines := pipelines_of_reachedBy directory settings _ s h
  refine ⟨s.store.listed, s.store.listedPlaces, on_listStatic_none s.store hpipelines hlegible,
    Store.enumerates_listed s.store hlegible, Store.pairwise_listed s.store,
    on_listStatic_some s.store hpipelines hlegible, fun hordered heffort => ?_⟩
  rcases (stocked_of_reachedBy directory settings _ s hordered heffort).bound with ⟨n, -, hledger⟩
  exact Store.ascends_listed s.store n hledger (ordered_of_reachedBy directory settings s hordered)

end Entries

/-- The patch that moves an entry to the first place. -/
def tiePatch : List (String × Json) := [("execution_order", .natural 1)]

/-- Three filters that have been set, the last of which has been moved to the place of the first. -/
def tied : Session :=
  withTwoFilters.performAll alice {} (threeSet ++ [.updateStatic "t1" 3 tiePatch])

theorem patched_tied : Patched tied (plainEntry 1 "compress" 1) (plainEntry 2 "encrypt" 2)
    (plainEntry 3 "encrypt" 1) := by
  have hname : Number.writeNatural 3 = "3" := by decide
  have hpatched : StaticEntry.ofMembers?
      (Json.mergeMembers (plainEntry 3 "encrypt" 3).jsonMembers tiePatch) =
        some (plainEntry 3 "encrypt" 1) := by decide +kernel
  refine patched_performAll 3 (plainEntry 3 "encrypt" 3) _ _ _ _
    (storable_plainEntry 3 "encrypt" 3 (by decide) (by decide)) tiePatch ?_ hpatched ?_
  · rw [hname, threeTexts, get?_textsOf.2.2]
  · rw [hname]
    exact insert_textsOf.2 _

/-- Before the update the list ascends strictly. After it two entries have the same order, and the
    list of their target is still a part of the list of all. -/
theorem listings_of_reachedBy_tied :
    (∃ listed, on (listStatic none) (withTwoFilters.performAll alice {} threeSet).store =
        (.ok listed, (withTwoFilters.performAll alice {} threeSet).store) ∧
      listed.Pairwise fun a b => a.2.executionOrder < b.2.executionOrder) ∧
      (tied.store.entryAt? "t1" "1").map StaticEntry.executionOrder = some 1 ∧
      (tied.store.entryAt? "t1" "3").map StaticEntry.executionOrder = some 1 ∧
      ∃ listed places, on (listStatic none) tied.store = (.ok listed, tied.store) ∧
        tied.store.Enumerates listed places ∧
        (listed.Pairwise fun a b => a.2.executionOrder ≤ b.2.executionOrder) ∧
        on (listStatic (some "t1")) tied.store =
          (.ok (listed.filter fun e => e.1 = "t1"), tied.store) := by
  have hreached : ∀ (allows : Errand → Prop) (operations : List Operation),
      (∀ operation ∈ operations, allows operation.errand) →
        ReachedBy alice {} allows (withTwoFilters.performAll alice {} operations) :=
    fun allows => reachedBy_performAll alice {} allows _ (.begin _ fresh_withTwoFilters)
  have hordered := hreached Errand.KeepsOrder threeSet fun operation hmem => by
    rw [List.mem_singleton.mp hmem]
    trivial
  have heffort : (withTwoFilters.performAll alice {} threeSet).effort < Number.maxWord := by
    rw [performAll_threeSet.2.2.1]
    decide
  -- Both entries are read from the texts that the patches have left.
  have hfirst := Store.entryAt?_of_hashAt tied.store "t1" "1" _ patched_tied.texts _
    (storable_plainEntry 1 "compress" 1 (by decide) (by decide)) get?_textsOf.1
  have hthird := Store.entryAt?_of_hashAt tied.store "t1" "3" _ patched_tied.texts _
    (storable_plainEntry 3 "encrypt" 1 (by decide) (by decide)) get?_textsOf.2.2
  rcases listings_of_reachedBy alice {} _ (hreached (fun _ => True) threeSet fun _ _ => trivial)
    with ⟨before, -, hbefore, -, -, -, hstrict⟩
  rcases listings_of_reachedBy alice {} tied (hreached (fun _ => True) _ fun _ _ => trivial)
    with ⟨listed, places, hlisted, hlists, hsorted, hparts, -⟩
  refine ⟨⟨before, hbefore, hstrict hordered heffort⟩, ?_, ?_, listed, places, hlisted, hlists,
    hsorted, hparts "t1"⟩
  · rw [hfirst]
    rfl
  · rw [hthird]
    rfl

end Session

end StoragePolicy
