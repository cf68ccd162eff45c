import StoragePolicy.Proofs.Engine.Stocked
import StoragePolicy.Proofs.Registry.Updates

/-!
# What programs put into pipelines

A program of the engine puts an entry into a pipeline under an id that it has just been given, and
the entry carries this id and runs at its place. Whatever the counter stands at, an id that is given
can be held in a machine word, since the counter counts modulo the words. So the entries can be
held too, if the sizes in the object filters can, and these have been read from rules.

That is told from the calls of a program and from what may be replied to them. Neither the ledger of
the ids nor the number of ids that have been taken before matters for it, and so pipelines stay
legible however long a session goes on.

## Main definitions

* `StaticEntry.Issued`: Texts of entries as they are put under new ids.
* `Registry.Preserves`: Patches after which what stands under a name fits there.
* `Engine.Call.Fits`: Calls that put nothing into pipelines but what fits there.
* `Engine.Supplies`: Programs of such calls, as long as the ids they are given can be held.
* `Session.Supplied`: Sessions whose pipelines hold what fits there.

## Theorems

* `le_of_exec_nextId`: Ids that are given can be held.
* `fitting_updateStatic`: What an update keeps.
* `supplies_deploy`, `supplies_turn`: What the programs of the engine put into pipelines.
* `supplied_run`, `supplied_program`, `supplied_settle`: What they keep.
-/

namespace StoragePolicy

open Registry

/-- A text is that of an entry as it is put under a new id: the entry carries this id, and runs
    after all entries with smaller ones. -/
def StaticEntry.Issued (name text : String) : Prop :=
  ∃ e : StaticEntry, e.Storable ∧ text = e.toText ∧ name = Number.writeNatural e.policyId ∧
    e.executionOrder = e.policyId

/-- A patch makes what fits under a name of what has fitted there before. -/
def Registry.Preserves (fits : String → String → Prop) (name : String)
    (patch : List (String × Json)) : Prop :=
  ∀ key text e, fits name text → patchedEntry key text patch = .ok e → fits name e.toText

namespace Store

/-- A counter counts modulo the machine words. -/
theorem le_of_increment (d d' : Store) (key : String) (n : Nat)
    (h : d.increment key = .ok (n, d')) : n ≤ Number.maxWord := by
  have hmod : ∀ current, (current + 1) % (Number.maxWord + 1) ≤ Number.maxWord := fun current =>
    Nat.le_of_lt_succ (Nat.mod_lt (current + 1) (Nat.succ_pos Number.maxWord))
  rcases (Outcome.bind_eq_ok _ _ _).mp h with ⟨stored, -, hrest⟩
  cases stored with
  | none =>
    cases hrest
    exact hmod 0
  | some text =>
    dsimp only at hrest
    cases hread : Number.readNatural text.toList with
    | none =>
      rw [hread] at hrest
      cases hrest
    | some current =>
      rw [hread] at hrest
      cases hrest
      exact hmod current

/-- An id that is given can be held in a machine word. -/
theorem le_of_exec_nextId (d : Store) (id : Nat) (h : (d.exec nextIdCall).1 = .ok id) :
    id ≤ Number.maxWord := by
  rw [exec, incrementReserving] at h
  split at h
  · cases h
  · split at h
    · cases h
    · rename_i n d' hcounted
      split at h
      · cases h
      · cases h
        exact le_of_increment d d' counterKey id hcounted

/-- An update puts back what fits, if its patch makes that of what fits. -/
theorem fitting_updateStatic (fits : String → String → Prop) (d : Store) (hd : d.Fitting fits)
    (targetId : String) (id : Nat) (patch : List (String × Json))
    (hpatch : Preserves fits (Number.writeNatural id) patch) :
    (on (updateStatic targetId id patch) d).2.Fitting fits := by
  rcases hrun : on (updateStatic targetId id patch) d with ⟨result, d'⟩
  cases result with
  | error fault =>
    rw [store_of_updateStatic_error targetId id patch d d' fault hrun]
    exact hd
  | ok e =>
    rcases (on_updateStatic_eq_ok targetId id patch d d' e).mp hrun with
      ⟨fields, text, hfields, htext, hpatched, rfl⟩
    refine fitting_putHash fits d hd _ fields hfields _ fun name other hother => ?_
    rw [Dict.get?_insert] at hother
    split at hother
    · rename_i hname
      cases hother
      subst hname
      refine Or.inr (hpatch _ text e (hd targetId _ text ?_) hpatched)
      rw [field?_of_hashAt d _ _ fields hfields, htext]
    · exact Or.inl hother

end Store

/-! ### Programs -/

namespace Engine

/-- Calls that put nothing into pipelines but texts that fit their names, and start no monitor whose
    actions could store anything that cannot be held. -/
def Call.Fits (fits : String → String → Prop) : Call → Prop
  | .store c => c.Fitting fits
  | .launch _ _ binding => Sized binding.objectFilter
  | _ => True

/-- Programs of such calls. An id that is given can be held in a machine word. -/
inductive Supplies (fits : String → String → Prop) {α : Type} : Program interface α → Prop where
  | done (a : α) : Supplies fits (.done a)
  | call (c : Call) (next : c.Reply → Program interface α) (hc : c.Fits fits)
    (h : ∀ reply, Supplies fits (next reply)) : Supplies fits (.call c next)
  | take (next : (Call.store nextIdCall).Reply → Program interface α)
    (hok : ∀ id : Nat, id ≤ Number.maxWord → Supplies fits (next (Except.ok id)))
    (herror : ∀ e : StoreError, Supplies fits (next (Except.error e))) :
    Supplies fits (.call (.store nextIdCall) next)

section Parts

variable (fits : String → String → Prop) {α β : Type}

theorem supplies_of_makes (p : Program interface α) (hp : p.Makes (Call.Fits fits)) :
    Supplies fits p := by
  induction p with
  | done a => exact .done a
  | call c next ih => exact .call c next hp.1 fun reply => ih reply (hp.2 reply)

theorem supplies_bind (p : Program interface α) (f : α → Program interface β)
    (hp : Supplies fits p) (hf : ∀ a, Supplies fits (f a)) : Supplies fits (p >>= f) := by
  induction hp with
  | done a => exact hf a
  | call c next hc h ih => exact .call c _ hc ih
  | take next hok herror ihok iherror => exact .take _ ihok iherror

theorem supplies_then (p : Engine α) (f : α → Engine β) (hp : Supplies fits p.run)
    (hf : ∀ a, Supplies fits (f a).run) : Supplies fits (p >>= f).run := by
  refine supplies_bind fits p.run _ hp fun result => ?_
  cases result with
  | ok a => exact hf a
  | error e => exact .done _

theorem compositional_supplies : Compositional fun _ p => Supplies fits p :=
  ⟨.done, supplies_bind fits⟩

theorem fits_of_modest (p : Program interface α) (hp : p.Makes Call.Modest) :
    p.Makes (Call.Fits fits) := by
  refine Program.makes_mono _ _ p hp fun c hc => ?_
  cases c with
  | store c => exact fitting_of_sparing fits c hc
  | launch id condition binding => exact hc
  | _ => trivial

theorem supplies_of_modest (p : Program interface α) (hp : p.Makes Call.Modest) :
    Supplies fits p := supplies_of_makes fits p (fits_of_modest fits p hp)

theorem supplies_idle (p : Registry α) (hp : p.run.Makes Store.Call.Idle) :
    Supplies fits (ofRegistry p).run := supplies_of_modest fits _ (modest_idle p hp)

end Parts

section Programs

variable (fits : String → String → Prop) (settings : Settings)

theorem fits_storeRecord (r : PolicyRecord) : (storeRecord r).run.Makes (Call.Fits fits) :=
  makes_storeRecord (Call.Fits fits) r (fitting_putDynamic fits r) (fitting_release fits r.id)
    (fitting_of_sparing fits resetCall ⟨rfl, rfl⟩)

theorem fits_deployPairs (text conditionText : String) (rule : Rule)
    (hsized : Sized rule.objectFilter) (pairs : List (Target × FilterAction × Nat))
    (done : Deployment) :
    (deployPairs settings text conditionText rule pairs done).run.Makes (Call.Fits fits) :=
  makes_deployPairs settings (Call.Fits fits) text conditionText rule (fitting_nextId fits)
    (fits_storeRecord fits) (fun r _ _ => makes_spawn (Call.Fits fits) r _ fun _ => hsized) pairs
    done

variable (hissued : ∀ name text, StaticEntry.Issued name text → fits name text)

include hissued

/-- An action puts an entry under the id it has been given. -/
theorem supplies_dispatch (target : Target) (action : FilterAction)
    (objectFilter : Option ObjectFilter) (hsized : Sized objectFilter) :
    Supplies fits (dispatch target action objectFilter).run := by
  refine supplies_then fits _ _ (supplies_idle fits _ (idle_requireFilter _)) fun filter => ?_
  cases action.verb with
  | set =>
    refine .take _ (fun id hid => ?_) fun _ => .done _
    have hstorable := storable_newEntry id filter.name action objectFilter hid hsized
    have hput : (ofRegistry (putStatic target.id id
        (newEntry id filter.name action objectFilter))).run.Makes (Call.Fits fits) :=
      makes_ofRegistry _ (putStatic target.id id _) (makes_ask _ _
        (fitting_putStatic fits target.id id _ (hissued _ _ ⟨_, hstorable, rfl, rfl, rfl⟩)))
    refine supplies_then fits (ofRegistry (putStatic target.id id _)) _
      (supplies_of_makes fits _ hput) fun _ => ?_
    exact .call _ _ trivial fun reply => by cases reply <;> exact .done _
  | delete =>
    refine supplies_of_modest fits _ (makes_then _ _ _ ⟨trivial, fun _ => trivial⟩ fun _ => ?_)
    exact makes_then _ _ _ (modest_idle _ (idle_deleteMatching _ _)) fun _ => makes_done _ _

theorem supplies_deploy (directory : Directory) (text : String) :
    Supplies fits (deploy directory settings text) := by
  refine (compositional_supplies fits).holds_deploy directory settings (fun line => ?_) text
  refine (compositional_supplies fits).holds_deployLine directory settings line
    (fun rule => supplies_idle fits _ (idle_check directory rule)) ?_ ?_
  · intro rule conditionText targets hrule _
    exact supplies_of_makes fits _ (fits_deployPairs fits settings line conditionText rule
      (sized_of_parse line rule hrule) _ _)
  · intro rule target action hrule
    exact supplies_dispatch fits hissued target action _ (sized_of_parse line rule hrule)

theorem supplies_turn (handle : MonitorHandle) (binding : MonitorBinding)
    (hsized : Sized binding.objectFilter) (m : Monitor) (sample : Sample) :
    Supplies fits (turn settings handle binding m sample) :=
  (compositional_supplies fits).holds_turn settings handle binding
    (supplies_of_makes fits _ (makes_ask _ _ trivial))
    (supplies_dispatch fits hissued _ _ _ hsized)
    (supplies_of_modest fits _ (modest_retire settings _))
    (supplies_of_modest fits _ (modest_afterPersistentFire settings _)) m sample

end Programs

end Engine

/-! ### Sessions -/

namespace Session

/-- Pipelines hold what fits there, and monitors have been started with object filters that can be
    held. -/
structure Supplied (fits : String → String → Prop) (s : Session) : Prop where
  unrefused : s.Open
  fitting : s.store.Fitting fits
  sized : ∀ serial task, s.monitors.tasks.get? serial = some task →
    Engine.Sized task.binding.objectFilter

section Supplied

variable (fits : String → String → Prop) (settings : Engine.Settings)

theorem supplied_within (s : Session) (h : s.Supplied fits) (u : MonitorTable)
    (hu : s.monitors.Within u) : (s.withMonitors u).Supplied fits where
  unrefused := h.unrefused
  fitting := h.fitting
  sized := by
    intro serial task htask
    rcases hu.bindings serial task htask with ⟨old, hold, hbinding⟩
    rw [hbinding]
    exact h.sized serial old hold

theorem supplied_withStore (s : Session) (h : s.Supplied fits) (d : Store) (hd : d.Fitting fits) :
    (s.withStore d).Supplied fits := ⟨h.unrefused, hd, h.sized⟩

theorem supplied_exec (c : Engine.Call) (hc : c.Fits fits) (s : Session) (h : s.Supplied fits) :
    (exec c s).2.Supplied fits := by
  cases c with
  | store c =>
    rw [exec_store s c h.unrefused]
    exact supplied_withStore fits s h _ (Store.fitting_exec fits s.store c hc h.fitting)
  | launch id condition binding =>
    refine ⟨h.unrefused, h.fitting, fun serial task htask => ?_⟩
    simp only [exec, MonitorTable.launch] at htask
    split at htask
    · exact h.sized serial task htask
    · rcases MonitorTable.binding_started s.monitors id condition binding serial task htask with
        hnew | hold
      · rw [hnew]
        exact hc
      · exact h.sized serial task hold
  -- The remaining calls leave the store alone and give no task another binding.
  | install target filter entry => exact ⟨h.unrefused, h.fitting, h.sized⟩
  | uninstall target filter => exact ⟨h.unrefused, h.fitting, h.sized⟩
  | isLive id => exact h
  | isHalted serial => exact h
  | take id => exact supplied_within fits s h _ (within_exec (.take id) trivial s)
  | drain => exact supplied_within fits s h _ (within_exec .drain trivial s)
  | halt serial => exact supplied_within fits s h _ (within_exec (.halt serial) trivial s)
  | unsubscribe tenantId id =>
    exact supplied_within fits s h _ (within_exec (.unsubscribe tenantId id) trivial s)
  | deliver sample => exact supplied_within fits s h _ (within_exec (.deliver sample) trivial s)

/-- Programs that put nothing into pipelines but what fits there. -/
theorem supplied_run {α : Type} (p : Program Engine.interface α) (hp : Engine.Supplies fits p)
    (s : Session) (h : s.Supplied fits) : (s.run p).2.Supplied fits := by
  induction hp generalizing s with
  | done a => exact h
  | call c next hc _ ih => exact ih _ _ (supplied_exec fits c hc s h)
  | take next hok herror ihok iherror =>
    have hnext := supplied_exec fits (.store nextIdCall) (fitting_nextId fits) s h
    have hrun : s.run (.call (.store nextIdCall) next) =
        (exec (.store nextIdCall) s).2.run (next (exec (.store nextIdCall) s).1) := rfl
    rw [hrun]
    have hreply : (exec (.store nextIdCall) s).1 = (s.store.exec nextIdCall).1 := by
      rw [exec_store s nextIdCall h.unrefused]
    generalize exec (.store nextIdCall) s = outcome at hnext hreply ⊢
    rcases outcome with ⟨reply, t⟩
    cases reply with
    | ok id => exact ihok id (Store.le_of_exec_nextId s.store id hreply.symm) t hnext
    | error e => exact iherror e t hnext

/-- The update of an entry, as what its patch makes of it fits again. -/
theorem supplied_updateEntry (directory : Directory) (targetId : String) (id : Nat)
    (patch : List (String × Json)) (hpatch : Preserves fits (Number.writeNatural id) patch)
    (s : Session) (h : s.Supplied fits) :
    (s.run (Engine.ofRegistry (Engine.updateEntry directory targetId id patch)).run).2.Supplied
      fits := by
  rw [run_ofRegistry s _ h.unrefused, store_on_updateEntry]
  exact supplied_withStore fits s h _
    (Store.fitting_updateStatic fits s.store h.fitting targetId id patch hpatch)

variable (hissued : ∀ name text, StaticEntry.Issued name text → fits name text)

include hissued

/-- What an operation keeps, as long as it is no update whose patch does otherwise. -/
theorem supplied_program (directory : Directory) (operation : Operation)
    (hkeeps : ∀ targetId id patch, operation = .updateStatic targetId id patch →
      Preserves fits (Number.writeNatural id) patch) (s : Session) (h : s.Supplied fits) :
    (s.run (operation.program directory settings)).2.Supplied fits := by
  cases operation with
  | deploy text =>
    rw [Operation.program, run_discard_program]
    exact supplied_run fits _ (Engine.supplies_deploy fits settings hissued directory text) s h
  | updateStatic targetId id patch =>
    rw [Operation.program, run_discard_program]
    exact supplied_updateEntry fits directory targetId id patch (hkeeps targetId id patch rfl) s h
  | _ =>
    exact supplied_run fits _ (Engine.supplies_of_modest fits _
      (modest_program directory settings _ (by simp) (by simp))) s h

theorem supplied_turn (handle : MonitorHandle) (binding : MonitorBinding)
    (hsized : Engine.Sized binding.objectFilter) (m : Monitor) (sample : Sample) (s : Session)
    (h : s.Supplied fits) :
    (s.run (Engine.turn settings handle binding m sample)).2.Supplied fits :=
  supplied_run fits _ (Engine.supplies_turn fits settings hissued handle binding hsized m sample)
    s h

theorem supplied_serve (handle : MonitorHandle) (binding : MonitorBinding)
    (hsized : Engine.Sized binding.objectFilter) (queue : List Sample) (m : Monitor) (s : Session)
    (h : s.Supplied fits) : (serve settings handle binding queue m s).2.Supplied fits :=
  goes_serve (fun s t => s.Supplied fits → t.Supplied fits) (fun _ h => h)
    (fun _ _ _ h h' hs => h' (h hs)) settings handle binding
    (supplied_turn fits settings hissued handle binding hsized) queue m s h

theorem supplied_runTask (serial : Nat) (s : Session) (h : s.Supplied fits) :
    (s.runTask settings serial).Supplied fits := by
  rw [runTask]
  cases htask : s.monitors.tasks.get? serial with
  | none => exact h
  | some task =>
    dsimp only
    split
    · exact h
    · have hserve := supplied_serve fits settings hissued task.handle task.binding
        (h.sized serial task htask) task.queue task.monitor s h
      exact supplied_within fits _ hserve _ (MonitorTable.within_adjust _ serial _ fun _ => rfl)

/-- All monitors read what they have to read. -/
theorem supplied_settle (s : Session) (h : s.Supplied fits) :
    (s.settle settings).Supplied fits := by
  rw [settle_eq]
  refine goes_runTasks (fun s t => s.Supplied fits → t.Supplied fits) (fun _ h => h)
    (fun _ _ _ h h' hs => h' (h hs)) settings
    (fun t serial => supplied_runTask fits settings hissued serial t) _ _
    (supplied_within fits s h _ ?_)
  exact MonitorTable.within_of_tasks _ _ rfl (fun _ hlive => hlive) rfl

end Supplied

theorem supplied_of_fresh (fits : String → String → Prop) (s : Session) (h : s.Fresh) :
    s.Supplied fits where
  unrefused := h.unrefused
  fitting := fitting_of_fresh fits s h
  sized := (stocked_of_fresh s h).sized

end Session

end StoragePolicy
