import StoragePolicy.Proofs.Engine.Deployed
import StoragePolicy.Proofs.Engine.Reserved

/-!
# What a static rule comes to

A static rule is deployed by taking its actions on its targets, target by target. Every attempt asks
the storage side once, and the next one is made whatever the answer was. An action that sets a
filter stores its entry before it asks, so that the entry is there even if the storage side refuses;
an action that deletes a filter takes the entries of the filter out of the pipeline only if the
storage side agrees.

What is in the pipelines at the end can therefore be told from the list of attempts: an entry of old
is there if no later attempt has cleared it, and so is the entry of an attempt. The ids of the
attempts need not grow, because an attempt that clears the last entry of all sets the counter back.
But when an id is taken, nothing stands under it, so that among the entries that are left at the end
no id stands twice.

## Main definitions

* `Attempt`: An action taken on a target, with what has come of it.
* `Attempt.Clears`: An attempt that takes the entries of a filter out of a pipeline.
* `Session.Attempted`: What one attempt comes to.
* `Session.AllAttempted`: What attempts come to, one after the other.
* `Session.Enacted`: What a rule comes to, by its attempts.

## Theorems

* `attempted_set`, `attempted_accepted`, `attempted_refused`: What an action comes to.
* `run_deployStatic`: The pairs of a rule become attempts.
* `entries_of_allAttempted`: The entries that are left after some attempts.
* `fresh_of_allAttempted`: Nothing is left under an id that is taken.
* `enacted_of_run`: What a static rule comes to in every state that a session reaches.
-/

namespace StoragePolicy

open Registry

/-- An action taken on a target: the filter that was found for it, the id that was taken if it sets
    the filter, and what the storage side has answered. -/
structure Attempt where
  target : Target
  action : FilterAction
  filter : FilterSpec
  id : Nat
  answer : Except InstallerError Unit

namespace Attempt

/-- The entry that is stored if the action sets the filter. -/
def entry (objectFilter : Option ObjectFilter) (a : Attempt) : StaticEntry :=
  Engine.newEntry a.id a.filter.name a.action objectFilter

/-- The call that is made to the storage side. -/
def call (objectFilter : Option ObjectFilter) (a : Attempt) : InstallerCall :=
  match a.action.verb with
  | .set => .install a.target a.filter (a.entry objectFilter)
  | .delete => .uninstall a.target a.filter

/-- The attempt has deleted a filter from a target, so that its entries are gone. -/
def Clears (a : Attempt) (targetId filterName : String) : Prop :=
  a.action.verb = .delete ∧ a.answer = .ok () ∧ a.target.id = targetId ∧
    a.action.filterName = filterName

/-- The new policy, if the attempt has set a filter. -/
def policy? (a : Attempt) : Option Nat :=
  match a.action.verb, a.answer with
  | .set, .ok _ => some a.id
  | _, _ => none

/-- The failure, if the storage side has refused. -/
def failure? (a : Attempt) : Option Engine.TargetFailure :=
  match a.answer with
  | .ok _ => none
  | .error e =>
    some { targetId := a.target.id, filterName := a.action.filterName, error := .ofInstaller e }

/-- The outcome of the action, by what the storage side has answered. -/
def Concludes (a : Attempt) (outcome : Except EngineError Engine.Outcome) : Prop :=
  match a.action.verb, a.answer with
  | _, .error e => outcome = .error (.ofInstaller e)
  | .set, .ok _ => outcome = .ok (.installed a.id)
  | .delete, .ok _ => ∃ removed, outcome = .ok (.uninstalled removed)

end Attempt

/-- The storage side is not the store. -/
theorem EngineError.isStoreFailure_ofInstaller (e : InstallerError) :
    (ofInstaller e).isStoreFailure = false := by
  cases e <;> rfl

/-! ### The store -/

namespace Store

variable (d : Store) (n : Nat) (h : d.Ledger n)

include h

/-- Nothing stands under an id that has not been taken. -/
theorem field?_of_fresh (targetId : String) (id : Nat) (hid : n < id) :
    d.field? (pipelineKey targetId) (Number.writeNatural id) = none := by
  cases hfield : d.field? (pipelineKey targetId) (Number.writeNatural id) with
  | none => rfl
  | some text =>
    have hheld : d.Holds (Number.writeNatural id) (.entry targetId) := by
      rw [Holds, hfield]
      rfl
    rcases h.bounded _ _ hheld with ⟨other, heq, -, hle⟩
    have hsame := Number.writeNatural_inj _ _ heq
    omega

theorem entryAt?_of_fresh (targetId : String) (id : Nat) (hid : n < id) :
    d.entryAt? targetId (Number.writeNatural id) = none := by
  rw [entryAt?, field?_of_fresh d n h targetId id hid, Option.bind_none]

/-- Storing an entry under the next id puts its text there and leaves all others. -/
theorem field?_withEntry (hroom : n < Number.maxWord) (targetId : String) (entry : StaticEntry)
    (other name : String) :
    (Session.withEntry d targetId (n + 1) entry).field? (pipelineKey other) name =
      if other = targetId ∧ name = Number.writeNatural (n + 1) then some entry.toText
      else d.field? (pipelineKey other) name := by
  rcases h.reservations with ⟨reserved, hreserved⟩
  have hnext := exec_nextId d n reserved h.counts hroom hreserved
  rcases on_nextId d n h hroom with ⟨-, hledger, -⟩
  rw [hnext] at hledger
  rcases hledger.reservations with ⟨taken, htaken⟩
  rcases hledger.pipelines targetId with ⟨fields, hfields⟩
  have hold : ∀ name, d.field? (pipelineKey other) name =
      (d.withNextId n reserved).field? (pipelineKey other) name := by
    intro name
    refine field?_congr d _ _ name ?_
    rw [withNextId, get?_putHash, if_neg (pipelineKey_ne_reservationKey other),
      Dict.get?_insert, if_neg (pipelineKey_ne_counterKey other)]
  -- Of the two hashes that are put, only the pipeline is one in which entries stand.
  rw [Session.withEntry, hnext, exec_putStatic _ targetId (n + 1) entry fields taken hfields htaken]
  rw [field?_putHash, if_neg (pipelineKey_ne_reservationKey other), field?_putHash]
  by_cases hother : other = targetId
  · subst hother
    rw [if_pos rfl, Dict.get?_insert]
    by_cases hname : name = Number.writeNatural (n + 1)
    · rw [if_pos hname, if_pos ⟨rfl, hname⟩]
    · rw [if_neg hname, if_neg fun hboth => hname hboth.2, hold,
        field?_of_hashAt _ _ name fields hfields]
  · have hkey : pipelineKey other ≠ pipelineKey targetId := fun heq =>
      hother (append_right_inj _ _ _ heq)
    rw [if_neg hkey, if_neg fun hboth => hother hboth.1, hold]

/-- Storing an entry under the next id puts it there and leaves all others. -/
theorem entryAt?_withEntry (hroom : n < Number.maxWord) (targetId : String) (entry : StaticEntry)
    (hentry : entry.Storable) (other name : String) :
    (Session.withEntry d targetId (n + 1) entry).entryAt? other name =
      if other = targetId ∧ name = Number.writeNatural (n + 1) then some entry
      else d.entryAt? other name := by
  rw [entryAt?, field?_withEntry d n h hroom targetId entry other name]
  split
  · rw [Option.bind_some, StaticEntry.ofText?_toText entry hentry]
  · rfl

omit h in
/-- Taking a filter out of a pipeline concerns this pipeline and the counter. -/
theorem get?_deleteMatching (targetId filterName key : String) (hcounter : key ≠ counterKey)
    (hpipeline : key ≠ pipelineKey targetId) :
    (on (deleteMatching targetId filterName) d).2.get? key = d.get? key := by
  refine get?_on _ _ (makes_deleteMatching _ targetId filterName ?_ (fun name => ?_) ?_) d
  · exact List.not_mem_nil
  · exact fun hmem => hpipeline (List.mem_singleton.mp hmem)
  · exact fun hmem => hcounter (List.mem_singleton.mp hmem)

end Store

namespace Session

/-! ### One attempt -/

/-- What an attempt comes to: the storage side has been asked once, and at most one pipeline has
    changed. -/
structure Attempted (objectFilter : Option ObjectFilter) (a : Attempt) (s t : Session) :
    Prop where
  answer : a.answer = (s.storage.receive (a.call objectFilter)).1
  storage : t.storage = (s.storage.receive (a.call objectFilter)).2
  monitors : t.monitors = s.monitors
  others : ∀ key, key ≠ counterKey → key ≠ reservationKey → key ≠ pipelineKey a.target.id →
    t.store.get? key = s.store.get? key
  fresh : a.action.verb = .set →
    ∀ targetId, s.store.entryAt? targetId (Number.writeNatural a.id) = none
  entries : ∀ targetId name e, t.store.entryAt? targetId name = some e ↔
    (s.store.entryAt? targetId name = some e ∧ ¬ a.Clears targetId e.filterName) ∨
      (a.action.verb = .set ∧ targetId = a.target.id ∧ name = Number.writeNatural a.id ∧
        e = a.entry objectFilter)

section Attempt

variable (s : Session) (target : Target) (action : FilterAction)
  (objectFilter : Option ObjectFilter) (filter : FilterSpec)
  (hfilter : (on (getFilter action.filterName) s.store).1 = .ok (some filter))

include hfilter

/-- Setting a filter leaves its entry under the next id, whatever the storage side answers. -/
theorem attempted_set (hs : s.Sound) (n : Nat) (hledger : s.store.Ledger n)
    (hroom : n < Number.maxWord)
    (hstorable : ∀ filter, objectFilter = some filter → filter.Storable)
    (hverb : action.verb = .set) :
    ∃ a t outcome, a.target = target ∧ a.action = action ∧ a.filter = filter ∧
      a.Concludes outcome ∧ Attempted objectFilter a s t ∧
      s.run (Engine.dispatch target action objectFilter).run = (outcome, t) := by
  rcases run_setFilter s hs.unrefused n hledger hroom target filter
    (fun id => Engine.newEntry id filter.name action objectFilter) (fun _ => rfl) with ⟨-, hrun⟩
  have hdispatch := run_dispatch_set s target action objectFilter filter hfilter hs.unrefused hverb
  have hentry := Engine.storable_newEntry (n + 1) filter.name action objectFilter (by omega)
    (Engine.sized_of_storable objectFilter hstorable)
  generalize hnew : Engine.newEntry (n + 1) filter.name action objectFilter = entry at *
  generalize hanswer : (s.storage.receive (.install target filter entry)).1 = answer at *
  -- The entry is stored before the storage side is asked, so the answer does not matter for it.
  have hcall : (⟨target, action, filter, n + 1, answer⟩ : Attempt).call objectFilter =
      .install target filter entry := by
    simp only [Attempt.call, hverb, Attempt.entry, hnew]
  refine ⟨⟨target, action, filter, n + 1, answer⟩, _, _, rfl, rfl, rfl, ?_, ?_,
    hdispatch.trans hrun⟩
  · simp only [Attempt.Concludes, hverb]
    cases answer <;> rfl
  · refine ⟨?_, ?_, rfl, fun key hcounter hreservations hpipeline => ?_, fun _ targetId => ?_,
      fun targetId name e => ?_⟩
    · rw [hcall, hanswer]
    · rw [hcall]
      rfl
    · exact get?_withEntry _ _ _ _ key hcounter hreservations hpipeline
    · exact Store.entryAt?_of_fresh s.store n hledger targetId (n + 1) (Nat.lt_succ_self n)
    · have hclears : ∀ targetId filterName,
          ¬ (⟨target, action, filter, n + 1, answer⟩ : Attempt).Clears targetId filterName := by
        rintro targetId filterName ⟨hdelete, -⟩
        rw [hverb] at hdelete
        cases hdelete
      rw [store_withStorage, store_withStore,
        Store.entryAt?_withEntry s.store n hledger hroom target.id entry hentry]
      by_cases hplace : targetId = target.id ∧ name = Number.writeNatural (n + 1)
      · -- Nothing has stood there before.
        have hnone := Store.entryAt?_of_fresh s.store n hledger targetId (n + 1)
          (Nat.lt_succ_self n)
        rw [if_pos hplace, hplace.2, hnone, Option.some.injEq]
        simp only [Attempt.entry, hnew, hverb, hplace.1, eq_comm, reduceCtorEq, false_and, true_and,
          false_or]
      · rw [if_neg hplace]
        constructor
        · exact fun he => Or.inl ⟨he, hclears _ _⟩
        · rintro (⟨he, -⟩ | ⟨-, htarget, hname, -⟩)
          · exact he
          · exact absurd ⟨htarget, hname⟩ hplace

variable (hverb : action.verb = .delete)

include hverb

/-- If the storage side agrees, a filter is taken out of the pipeline. -/
theorem attempted_accepted (hs : s.Sound) (hlabelled : s.store.Labelled)
    (haccepted : (s.storage.receive (.uninstall target filter)).1 = .ok ()) :
    ∃ a t outcome, a.target = target ∧ a.action = action ∧ a.filter = filter ∧
      a.Concludes outcome ∧ Attempted objectFilter a s t ∧
      s.run (Engine.dispatch target action objectFilter).run = (outcome, t) := by
  rcases hs.ledger with ⟨n, hledger⟩
  rcases Store.takenOut_deleteMatching s.store hs.legible hlabelled n hledger target.id
    action.filterName with ⟨ids, hdone, htaken⟩
  have hrun := run_dispatch_delete s target action objectFilter filter hfilter hs.unrefused hverb
    haccepted
  rw [hdone] at hrun
  -- No id is taken, so any number will do in its place.
  have hcall : (⟨target, action, filter, 0, .ok ()⟩ : Attempt).call objectFilter =
      .uninstall target filter := by
    simp only [Attempt.call, hverb]
  refine ⟨⟨target, action, filter, 0, .ok ()⟩, _, _, rfl, rfl, rfl, ?_, ?_, hrun⟩
  · simp only [Attempt.Concludes, hverb]
    exact ⟨ids, rfl⟩
  · refine ⟨?_, ?_, rfl, fun key hcounter _ hpipeline => ?_, fun hset => ?_,
      fun targetId name e => ?_⟩
    · rw [hcall, haccepted]
    · rw [hcall]
      rfl
    · exact Store.get?_deleteMatching s.store _ _ key hcounter hpipeline
    · rw [hverb] at hset
      cases hset
    · have hclears : (⟨target, action, filter, 0, .ok ()⟩ : Attempt).Clears targetId e.filterName ↔
          target.id = targetId ∧ action.filterName = e.filterName := by
        simp only [Attempt.Clears, hverb, true_and]
      rw [store_withStorage, store_withStore, hclears, hverb]
      simp only [reduceCtorEq, false_and, or_false]
      by_cases htarget : target.id = targetId
      · subst htarget
        rw [htaken.left, Option.filter_eq_some_iff, decide_eq_true_eq]
        simp only [true_and, ne_eq, eq_comm]
      · have hsame := htaken.others targetId (Ne.symm htarget)
        rw [Store.entryAt?, Store.field?_congr _ _ _ name hsame, ← Store.entryAt?]
        simp only [htarget, false_and, not_false_eq_true, and_true]

/-- If the storage side refuses, nothing changes. -/
theorem attempted_refused (hopen : s.Open) (e : InstallerError)
    (hrefused : (s.storage.receive (.uninstall target filter)).1 = .error e) :
    ∃ a t outcome, a.target = target ∧ a.action = action ∧ a.filter = filter ∧
      a.Concludes outcome ∧ Attempted objectFilter a s t ∧
      s.run (Engine.dispatch target action objectFilter).run = (outcome, t) := by
  have hrun := run_dispatch_refused s target action objectFilter filter hfilter hopen hverb e
    hrefused
  have hcall : (⟨target, action, filter, 0, .error e⟩ : Attempt).call objectFilter =
      .uninstall target filter := by
    simp only [Attempt.call, hverb]
  refine ⟨⟨target, action, filter, 0, .error e⟩, _, _, rfl, rfl, rfl, ?_, ?_, hrun⟩
  · simp only [Attempt.Concludes]
  · refine ⟨?_, ?_, rfl, fun _ _ _ _ => rfl, fun hset => ?_, fun targetId name entry => ?_⟩
    · rw [hcall, hrefused]
    · rw [hcall]
      rfl
    · rw [hverb] at hset
      cases hset
    · simp only [store_withStorage, Attempt.Clears, hverb, reduceCtorEq, false_and, and_false,
        not_false_eq_true, and_true, or_false]

end Attempt

/-- An action whose filter is known comes to an attempt, whatever the storage side answers. -/
theorem attempted_dispatch (s : Session) (target : Target) (action : FilterAction)
    (objectFilter : Option ObjectFilter) (filter : FilterSpec)
    (hfilter : (on (getFilter action.filterName) s.store).1 = .ok (some filter))
    (hs : s.Counted) (hlabelled : s.store.Labelled) (hroom : s.effort < Number.maxWord)
    (hstorable : ∀ filter, objectFilter = some filter → filter.Storable) :
    ∃ a t outcome, a.target = target ∧ a.action = action ∧ a.filter = filter ∧
      a.Concludes outcome ∧ Attempted objectFilter a s t ∧
      s.run (Engine.dispatch target action objectFilter).run = (outcome, t) := by
  rcases hs.bound with ⟨n, hn, hledger⟩
  cases hverb : action.verb with
  | set =>
    exact attempted_set s target action objectFilter filter hfilter hs.toSound n hledger (by omega)
      hstorable hverb
  | delete =>
    cases hanswer : (s.storage.receive (.uninstall target filter)).1 with
    | ok answer =>
      exact attempted_accepted s target action objectFilter filter hfilter hverb hs.toSound
        hlabelled hanswer
    | error e =>
      exact attempted_refused s target action objectFilter filter hfilter hverb hs.unrefused e
        hanswer

/-! ### Attempts one after the other -/

/-- What attempts come to, one after the other. -/
inductive AllAttempted (objectFilter : Option ObjectFilter) :
    List Attempt → Session → Session → Prop where
  | nil (s : Session) : AllAttempted objectFilter [] s s
  | cons (a : Attempt) (rest : List Attempt) (s u t : Session)
      (first : Attempted objectFilter a s u) (later : AllAttempted objectFilter rest u t) :
      AllAttempted objectFilter (a :: rest) s t

section AllAttempted

variable (objectFilter : Option ObjectFilter)

/-- An attempt leaves the catalog alone. -/
theorem sameCatalog_of_attempted (a : Attempt) (s t : Session) (h : Attempted objectFilter a s t) :
    s.store.SameCatalog t.store := by
  intro key hkey
  exact h.others key (fun heq => hkey (Or.inl heq)) (fun heq => hkey (Or.inr (Or.inl heq)))
    fun heq => hkey (Or.inr (Or.inr (Or.inl ⟨_, heq⟩)))

/-- An attempt asks the storage side once. -/
theorem effort_of_attempted (a : Attempt) (s t : Session) (h : Attempted objectFilter a s t) :
    t.effort = s.effort + 1 := by
  rw [effort, effort, h.storage, h.monitors]
  simp only [StorageSide.receive, List.length_append, List.length_singleton]
  omega

/-- The next pair is deployed whatever has become of an attempt. -/
theorem run_deployStatic_cons (a : Attempt) (s t : Session)
    (outcome : Except EngineError Engine.Outcome) (houtcome : a.Concludes outcome)
    (hrun : s.run (Engine.dispatch a.target a.action objectFilter).run = (outcome, t))
    (index : Nat) (rest : List (Target × FilterAction × Nat)) (done : Engine.Deployment) :
    s.run (Engine.deployStatic objectFilter ((a.target, a.action, index) :: rest) done) =
      t.run (Engine.deployStatic objectFilter rest
        { policies := done.policies ++ a.policy?.toList
          failures := done.failures ++ a.failure?.toList }) := by
  rw [Engine.deployStatic, run_bind, hrun]
  rcases a with ⟨target, action, filter, id, answer⟩
  simp only [Attempt.Concludes] at houtcome
  cases hverb : action.verb <;> cases answer <;> simp only [hverb] at houtcome
  · subst houtcome
    simp [Attempt.policy?, Attempt.failure?, hverb, EngineError.isStoreFailure_ofInstaller]
  · subst houtcome
    simp [Attempt.policy?, Attempt.failure?, hverb]
  · subst houtcome
    simp [Attempt.policy?, Attempt.failure?, hverb, EngineError.isStoreFailure_ofInstaller]
  · rcases houtcome with ⟨removed, rfl⟩
    simp [Attempt.policy?, Attempt.failure?, hverb]

/-- The pairs of a rule become attempts in their order, and what has come of them is reported. -/
theorem run_deployStatic (hstorable : ∀ filter, objectFilter = some filter → filter.Storable)
    (pairs : List (Target × FilterAction × Nat)) (done : Engine.Deployment) (s : Session)
    (hs : s.Counted) (hlabelled : s.store.Labelled)
    (hroom : s.effort + pairs.length < Number.maxWord)
    (hfilters : ∀ pair ∈ pairs, ∃ filter,
      (on (getFilter pair.2.1.filterName) s.store).1 = .ok (some filter)) :
    ∃ attempts t, AllAttempted objectFilter attempts s t ∧
      attempts.map (fun a => (a.target, a.action)) = pairs.map (fun pair => (pair.1, pair.2.1)) ∧
      (∀ a ∈ attempts, (on (getFilter a.action.filterName) s.store).1 = .ok (some a.filter)) ∧
      s.run (Engine.deployStatic objectFilter pairs done) =
        (({ policies := done.policies ++ attempts.filterMap Attempt.policy?
            failures := done.failures ++ attempts.filterMap Attempt.failure? }, none), t) := by
  induction pairs generalizing done s with
  | nil =>
    refine ⟨[], s, .nil s, rfl, fun a ha => absurd ha List.not_mem_nil, ?_⟩
    simp only [List.filterMap_nil, List.append_nil]
    rfl
  | cons pair rest ih =>
    rcases pair with ⟨target, action, index⟩
    rw [List.length_cons] at hroom
    rcases hfilters _ List.mem_cons_self with ⟨filter, hfilter⟩
    rcases attempted_dispatch s target action objectFilter filter hfilter hs hlabelled (by omega)
      hstorable with ⟨a, u, outcome, rfl, rfl, rfl, houtcome, hattempted, hrun⟩
    have heffort := effort_of_attempted objectFilter a s u hattempted
    have hcatalog := sameCatalog_of_attempted objectFilter a s u hattempted
    -- What holds between the attempts is kept by every action.
    have hworks := works_dispatch (fun deed => deed = .pass) rfl a.target a.action objectFilter
      hstorable s
    have hlabels := kept_run (fun t => t.store.Labelled) labelled_call _
      (Engine.usual_dispatch a.target a.action objectFilter) s hlabelled
    rw [hrun] at hworks hlabels
    have hlt : u.effort < Number.maxWord := by omega
    have hcounted := (hworks.path hlt hs).1
    rcases ih { policies := done.policies ++ a.policy?.toList
                failures := done.failures ++ a.failure?.toList } u hcounted hlabels (by omega)
      (fun other hother => by
        rw [on_getFilter_congr s.store u.store hcatalog]
        exact hfilters other (List.mem_cons_of_mem _ hother)) with
      ⟨attempts, t, hall, hpairs, hknown, hrest⟩
    refine ⟨a :: attempts, t, .cons a attempts s u t hattempted hall, ?_, ?_, ?_⟩
    · rw [List.map_cons, List.map_cons, hpairs]
    · intro other hother
      rcases List.mem_cons.mp hother with rfl | hother
      · exact hfilter
      · rw [← on_getFilter_congr s.store u.store hcatalog]
        exact hknown other hother
    · rw [run_deployStatic_cons objectFilter a s u outcome houtcome hrun index rest done, hrest]
      cases hpolicy : a.policy? <;> cases hfailure : a.failure? <;>
        simp [hpolicy, hfailure]

variable (attempts : List Attempt) (s t : Session)
  (h : AllAttempted objectFilter attempts s t)

theorem allAttempted_append (before after : List Attempt)
    (h : AllAttempted objectFilter (before ++ after) s t) :
    ∃ u, AllAttempted objectFilter before s u ∧ AllAttempted objectFilter after u t := by
  induction before generalizing s with
  | nil => exact ⟨s, .nil s, h⟩
  | cons a rest ih =>
    rcases h with _ | ⟨_, _, _, v, _, hfirst, hlater⟩
    rcases ih v hlater with ⟨u, hbefore, hafter⟩
    exact ⟨u, .cons a rest s v u hfirst hbefore, hafter⟩

include h

/-- Every attempt makes its call, and no other call is made. -/
theorem storage_of_allAttempted :
    t.storage =
      { s.storage with
        calls := s.storage.calls ++ attempts.map (Attempt.call objectFilter) } := by
  induction h with
  | nil s => rw [List.map_nil, List.append_nil]
  | cons a rest s u t first _ ih =>
    rw [ih, first.storage]
    simp only [StorageSide.receive, List.map_cons, List.append_assoc, List.cons_append,
      List.nil_append]

theorem monitors_of_allAttempted : t.monitors = s.monitors := by
  induction h with
  | nil s => rfl
  | cons a rest s u t first _ ih => exact ih.trans first.monitors

/-- Attempts change nothing but the counter, the reservations and the pipelines of their targets. -/
theorem others_of_allAttempted (key : String) (hcounter : key ≠ counterKey)
    (hreservations : key ≠ reservationKey)
    (hpipelines : ∀ a ∈ attempts, key ≠ pipelineKey a.target.id) :
    t.store.get? key = s.store.get? key := by
  induction h with
  | nil s => rfl
  | cons a rest s u t first _ ih =>
    exact (ih fun other hother => hpipelines other (List.mem_cons_of_mem a hother)).trans
      (first.others key hcounter hreservations (hpipelines a List.mem_cons_self))

/-- The entries that are left after some attempts are those of old and those of the attempts that no
    later attempt has cleared. -/
theorem entries_of_allAttempted (targetId name : String) (e : StaticEntry) :
    t.store.entryAt? targetId name = some e ↔
      (s.store.entryAt? targetId name = some e ∧
        ∀ a ∈ attempts, ¬ a.Clears targetId e.filterName) ∨
      ∃ before a after, attempts = before ++ a :: after ∧ a.action.verb = .set ∧
        targetId = a.target.id ∧ name = Number.writeNatural a.id ∧ e = a.entry objectFilter ∧
        ∀ later ∈ after, ¬ later.Clears targetId e.filterName := by
  -- From the first attempt on: what it has left, the others may clear.
  induction h with
  | nil s => simp
  | cons a rest s u t first _ ih =>
    rw [ih, first.entries]
    constructor
    · rintro (⟨⟨hold, hfirst⟩ | ⟨hverb, htarget, hname, he⟩, hlater⟩ |
        ⟨before, b, after, rfl, hverb, htarget, hname, he, hlater⟩)
      · refine Or.inl ⟨hold, fun other hother => ?_⟩
        rcases List.mem_cons.mp hother with rfl | hother
        · exact hfirst
        · exact hlater other hother
      · exact Or.inr ⟨[], a, rest, rfl, hverb, htarget, hname, he, hlater⟩
      · exact Or.inr ⟨a :: before, b, after, rfl, hverb, htarget, hname, he, hlater⟩
    · rintro (⟨hold, hclears⟩ | ⟨before, b, after, heq, hverb, htarget, hname, he, hlater⟩)
      · exact Or.inl ⟨Or.inl ⟨hold, hclears a List.mem_cons_self⟩,
          fun other hother => hclears other (List.mem_cons_of_mem a hother)⟩
      · rcases List.cons_eq_append_iff.mp heq with ⟨rfl, hcons⟩ | ⟨before', rfl, rfl⟩
        · cases hcons
          exact Or.inl ⟨Or.inr ⟨hverb, htarget, hname, he⟩, hlater⟩
        · exact Or.inr ⟨before', b, after, rfl, hverb, htarget, hname, he, hlater⟩

/-- When an attempt takes an id, whatever has stood under it has been cleared. -/
theorem fresh_of_allAttempted (before : List Attempt) (a : Attempt) (after : List Attempt)
    (hplace : attempts = before ++ a :: after) (hverb : a.action.verb = .set) :
    (∀ targetId e, s.store.entryAt? targetId (Number.writeNatural a.id) = some e →
      ∃ b ∈ before, b.Clears targetId e.filterName) ∧
    ∀ first b second, before = first ++ b :: second → b.action.verb = .set → b.id = a.id →
      ∃ c ∈ second, c.Clears b.target.id b.filter.name := by
  subst hplace
  rcases allAttempted_append objectFilter s t before (a :: after) h with ⟨u, hbefore, hrest⟩
  rcases hrest with _ | ⟨_, _, _, v, _, hattempted, -⟩
  have hnone := hattempted.fresh hverb
  have hentries := entries_of_allAttempted objectFilter before s u hbefore
  -- What has not been cleared would still be there when the id is taken.
  refine ⟨fun targetId e he => ?_, fun first b second hsplit hset hid => ?_⟩
  · by_contra hclears
    have hleft := (hentries targetId (Number.writeNatural a.id) e).mpr
      (Or.inl ⟨he, fun b hb hclear => hclears ⟨b, hb, hclear⟩⟩)
    rw [hnone] at hleft
    exact nomatch hleft
  · by_contra hclears
    have hleft := (hentries b.target.id (Number.writeNatural a.id) (b.entry objectFilter)).mpr
      (Or.inr ⟨first, b, second, hsplit, hset, rfl, by rw [hid], rfl,
        fun c hc hclear => hclears ⟨c, hc, hclear⟩⟩)
    rw [hnone] at hleft
    exact nomatch hleft

/-- What the storage side has answered to an attempt. -/
theorem answer_of_allAttempted (before : List Attempt) (a : Attempt) (after : List Attempt)
    (hplace : attempts = before ++ a :: after) :
    a.answer = s.storage.answer (s.storage.calls ++ before.map (Attempt.call objectFilter))
      (a.call objectFilter) := by
  subst hplace
  rcases allAttempted_append objectFilter s t before (a :: after) h with ⟨u, hbefore, hrest⟩
  rcases hrest with _ | ⟨_, _, _, v, _, hattempted, -⟩
  rw [hattempted.answer, storage_of_allAttempted objectFilter before s u hbefore]
  rfl

end AllAttempted

/-! ### Rules -/

/-- What a static rule comes to, by the attempts that are made for its targets and its actions. -/
structure Enacted (line : String) (rule : Rule) (targets : List Target) (attempts : List Attempt)
    (s t : Session) (report : Engine.LineReport) : Prop where
  distinct : (targets.map Target.id).Nodup
  pairs : attempts.map (fun a => (a.target, a.action)) =
    targets.flatMap fun target => rule.actions.map fun action => (target, action)
  known : ∀ a ∈ attempts, (on (getFilter a.action.filterName) s.store).1 = .ok (some a.filter)
  /-- Every attempt asks the storage side once, and nobody else does. -/
  storage : t.storage =
    { s.storage with
      calls := s.storage.calls ++ attempts.map (Attempt.call rule.objectFilter) }
  answers : ∀ before a after, attempts = before ++ a :: after →
    a.answer = s.storage.answer
      (s.storage.calls ++ before.map (Attempt.call rule.objectFilter)) (a.call rule.objectFilter)
  report : report =
    { rule := line, isDynamic := false, error := none
      done := { policies := attempts.filterMap Attempt.policy?
                failures := attempts.filterMap Attempt.failure? } }
  numbered : ∀ a ∈ attempts, (a.entry rule.objectFilter).policyId = a.id ∧
    (a.entry rule.objectFilter).executionOrder = a.id ∧
    (a.entry rule.objectFilter).filterName = a.action.filterName
  /-- Whatever has stood under the id of an attempt has been cleared before. -/
  fresh : ∀ before a after, attempts = before ++ a :: after → a.action.verb = .set →
    (∀ targetId e, s.store.entryAt? targetId (Number.writeNatural a.id) = some e →
      ∃ b ∈ before, b.Clears targetId e.filterName) ∧
    ∀ first b second, before = first ++ b :: second → b.action.verb = .set → b.id = a.id →
      ∃ c ∈ second, c.Clears b.target.id b.action.filterName
  /-- The entries that are left are those of old and those of the attempts, refused or not, that no
      later attempt has cleared. -/
  entries : ∀ targetId name e, t.store.entryAt? targetId name = some e ↔
    (s.store.entryAt? targetId name = some e ∧
      ∀ a ∈ attempts, ¬ a.Clears targetId e.filterName) ∨
    ∃ before a after, attempts = before ++ a :: after ∧ a.action.verb = .set ∧
      targetId = a.target.id ∧ name = Number.writeNatural a.id ∧ e = a.entry rule.objectFilter ∧
      ∀ later ∈ after, ¬ later.Clears targetId e.filterName
  others : ∀ key, key ≠ counterKey → key ≠ reservationKey →
    (∀ target ∈ targets, key ≠ pipelineKey target.id) → t.store.get? key = s.store.get? key
  reservations : t.store.hashAt reservationKey = .ok Dict.empty
  monitors : t.monitors = s.monitors

section Rules

variable (settings : Engine.Settings) (line : String) (rule : Rule) (targets : List Target)

/-- What becomes of a line whose rule passes the check is what becomes of its pairs. -/
theorem run_deployLine_static (hrule : Rule.parse line = .ok rule)
    (hstatic : rule.isDynamic = false) (directory : Directory) (s : Session) (hs : s.Open)
    (hcheck : on (Engine.check directory rule) s.store = (.ok targets, s.store)) :
    s.run (Engine.deployLine directory settings line) =
      (let outcome := s.run (Engine.deployStatic rule.objectFilter (Engine.pairs rule targets) {})
       ({ rule := line, isDynamic := false, done := outcome.1.1, error := outcome.1.2 },
        outcome.2)) := by
  have hchecked := run_ofRegistry s (Engine.check directory rule) hs
  rw [hcheck, withStore_store] at hchecked
  rw [Engine.deployLine, hrule]
  dsimp only
  rw [run_bind, Engine.deployRule, run_bind, hchecked]
  dsimp only
  rw [hstatic, if_neg (by simp)]
  rfl

/-- What attempts come to is what their rule comes to. -/
theorem enacted_of_allAttempted (attempts : List Attempt) (s t : Session)
    (hall : AllAttempted rule.objectFilter attempts s t)
    (hpairs : attempts.map (fun a => (a.target, a.action)) =
      (Engine.pairs rule targets).map fun pair => (pair.1, pair.2.1))
    (hknown : ∀ a ∈ attempts,
      (on (getFilter a.action.filterName) s.store).1 = .ok (some a.filter))
    (hdistinct : (targets.map Target.id).Nodup) (hreserves : t.Reserves none) :
    Enacted line rule targets attempts s t
      { rule := line, isDynamic := false, error := none
        done := { policies := attempts.filterMap Attempt.policy?
                  failures := attempts.filterMap Attempt.failure? } } := by
  have hnamed : ∀ a ∈ attempts, a.filter.name = a.action.filterName := fun a ha =>
    name_of_getFilter _ _ _ (hknown a ha)
  -- The rows are the pairs of the rule without the places of the actions.
  have hrows : attempts.map (fun a => (a.target, a.action)) =
      targets.flatMap fun target => rule.actions.map fun action => (target, action) := by
    rw [hpairs, Engine.pairs, List.map_flatMap]
    refine List.flatMap_congr fun target _ => ?_
    calc (rule.actions.zipIdx.map fun action => (target, action)).map
          (fun pair => (pair.1, pair.2.1))
        = (rule.actions.zipIdx.map Prod.fst).map fun action => (target, action) := by
          rw [List.map_map, List.map_map]
          rfl
      _ = rule.actions.map fun action => (target, action) := by rw [List.zipIdx_map_fst]
  refine ⟨hdistinct, hrows, hknown, storage_of_allAttempted _ _ s t hall,
    answer_of_allAttempted _ _ s t hall, rfl, fun a ha => ⟨rfl, rfl, hnamed a ha⟩,
    fun before a after hplace hverb => ?_, entries_of_allAttempted _ _ s t hall,
    fun key hcounter hreservations hpipelines => ?_, hreserves.store.reservations,
    monitors_of_allAttempted _ _ s t hall⟩
  · rcases fresh_of_allAttempted _ _ s t hall before a after hplace hverb with ⟨hold, hnew⟩
    refine ⟨hold, fun first b second hsplit hset hid => ?_⟩
    rw [← hnamed b (by rw [hplace, hsplit]; simp)]
    exact hnew first b second hsplit hset hid
  -- Each attempt is at a pair of the rule, so that it changes nothing but the pipeline of a
  -- target.
  · refine others_of_allAttempted _ _ s t hall key hcounter hreservations fun a ha => ?_
    have hpair : (a.target, a.action) ∈ attempts.map fun a => (a.target, a.action) :=
      List.mem_map_of_mem ha
    rw [hrows] at hpair
    rcases List.mem_flatMap.mp hpair with ⟨target, htarget, haction⟩
    rcases List.mem_map.mp haction with ⟨action, -, heq⟩
    rw [← (Prod.mk.inj heq).1]
    exact hpipelines target htarget

end Rules

/-- A session that begins, with a storage side that refuses its sixth call. -/
def withRefusal : Session :=
  { withTwoFilters with
    storage :=
      { answer := fun calls _ =>
          if calls.length = 5 then .error (.unexpectedStatus "500") else .ok () } }

theorem fresh_withRefusal : withRefusal.Fresh :=
  ⟨fresh_withTwoFilters.unrefused, fresh_withTwoFilters.vacant, fresh_withTwoFilters.monitors⟩

/-- A filter is set. -/
def oneSet : List Operation := [.deploy "TENANT alice DO SET compress"]

/-- A rule that deletes the filter and sets it again, on two targets. -/
def anew : String :=
  "TENANT alice, CONTAINER alice/photos DO DELETE compress, SET compress, SET encrypt"

end Session

end StoragePolicy
