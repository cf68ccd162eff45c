import StoragePolicy.Proofs.Engine.Attempts
import StoragePolicy.Proofs.Engine.Custody
import StoragePolicy.Proofs.Engine.Filings

/-!
# What the report of a line tells

A line may end in the middle: its targets and actions are taken one after the other, and a failure
of the store ends it. What has been created by then is stored, and the monitors that have been
started run. A report tells of a policy if it names its id, or a failure of its target and filter.

The report of a rule without a condition is written as the rule goes on, so it tells of everything
that has been filed, however the line ends. The report of a rule with a condition is put together
when all is done. If that is not reached nothing is left of it: the records of the first pairs of
targets and actions have been filed, and the report tells of none of them.

Nothing is assumed of the session. Its store may hold anything under any key, and it may refuse
calls.

## Main definitions

* `Engine.Deployment.Names`, `Engine.Deployment.Tells`: What a report tells of.
* `Engine.recordsOf`: The filings of the first pairs of a rule.
* `Session.Reported`: What the report of a line tells.

## Theorems

* `accounts_dispatch`: An action files one entry at most, and then ends in its id or in an error of
  the storage side.
* `accounts_deployStatic`: The report of a rule without a condition tells of all that is filed.
* `accounts_deployPairs`: That of a rule with a condition does if it comes to its end.
* `reported_of_run`: What the report of a line tells.
* `not_forall_told`: Something may be filed of which no report tells.
-/

namespace StoragePolicy

open Registry

/-- The field that an entry becomes. -/
def Filing.ofEntry (targetId : String) (e : StaticEntry) : Filing :=
  [⟨pipelineKey targetId, Number.writeNatural e.policyId, e.toText⟩]

/-- The fields that a record becomes. -/
def Filing.ofRecord (r : PolicyRecord) : Filing :=
  r.toFields.map fun field => ⟨PolicyRecord.storeKey r.id, field.1, field.2⟩

namespace Engine

namespace Deployment

/-- A report names a policy: by its id, or by a failure of its target and filter. -/
def Names (done : Deployment) (id : Nat) (targetId filterName : String) : Prop :=
  id ∈ done.policies ∨ ∃ f ∈ done.failures, f.targetId = targetId ∧ f.filterName = filterName

/-- A report tells of what a call has set: it is an entry or a record, and the report names the
    policy. -/
inductive Tells (done : Deployment) : Filing → Prop where
  | entry (targetId : String) (e : StaticEntry)
    (h : done.Names e.policyId targetId e.filterName) : Tells done (Filing.ofEntry targetId e)
  | record (r : PolicyRecord) (h : done.Names r.id r.targetId r.filterName) :
    Tells done (Filing.ofRecord r)

/-- A report that has been written on. -/
structure Extends (done done' : Deployment) : Prop where
  policies : ∀ id ∈ done.policies, id ∈ done'.policies
  failures : ∀ f ∈ done.failures, f ∈ done'.failures

section Extends

variable {done done' done'' : Deployment}

theorem extends_refl (done : Deployment) : done.Extends done :=
  ⟨fun _ h => h, fun _ h => h⟩

theorem Extends.trans (h : done.Extends done') (h' : done'.Extends done'') :
    done.Extends done'' :=
  ⟨fun id hid => h'.policies id (h.policies id hid),
    fun f hf => h'.failures f (h.failures f hf)⟩

theorem extends_policy (done : Deployment) (id : Nat) :
    done.Extends { done with policies := done.policies ++ [id] } :=
  ⟨fun _ h => List.mem_append_left _ h, fun _ h => h⟩

theorem extends_failure (done : Deployment) (f : TargetFailure) :
    done.Extends { done with failures := done.failures ++ [f] } :=
  ⟨fun _ h => h, fun _ h => List.mem_append_left _ h⟩

theorem Extends.names (h : done.Extends done') {id : Nat} {targetId filterName : String}
    (hnames : done.Names id targetId filterName) : done'.Names id targetId filterName := by
  rcases hnames with hid | ⟨f, hf, hsame⟩
  · exact Or.inl (h.policies id hid)
  · exact Or.inr ⟨f, h.failures f hf, hsame⟩

/-- What has been told stays told. -/
theorem Extends.tells (h : done.Extends done') {x : Filing} (hx : done.Tells x) :
    done'.Tells x := by
  cases hx with
  | entry targetId e hnames => exact .entry targetId e (h.names hnames)
  | record r hnames => exact .record r (h.names hnames)

theorem names_policy (done : Deployment) (id : Nat) (targetId filterName : String) :
    Names { done with policies := done.policies ++ [id] } id targetId filterName :=
  Or.inl (List.mem_append_right _ List.mem_cons_self)

theorem names_failure (done : Deployment) (id : Nat) (f : TargetFailure) (filterName : String)
    (h : f.filterName = filterName) :
    Names { done with failures := done.failures ++ [f] } id f.targetId filterName :=
  Or.inr ⟨f, List.mem_append_right _ List.mem_cons_self, rfl, h⟩

/-- An empty report tells of nothing. -/
theorem not_tells_empty (x : Filing) : ¬ Tells {} x := by
  have hnames : ∀ id targetId filterName, ¬ Names {} id targetId filterName := by
    rintro id targetId filterName (h | ⟨f, h, -⟩)
    · exact nomatch h
    · exact nomatch h
  rintro (⟨targetId, e, h⟩ | ⟨r, h⟩)
  · exact hnames _ _ _ h
  · exact hnames _ _ _ h

end Extends

end Deployment

/-! ### Actions -/

/-- What a lookup of a filter makes of its reply. -/
theorem getFilter_run (name : String) :
    (getFilter name).run = .call (.getFields (filterKey name)) fun reply =>
      .done (match (reply : Except StoreError (Dict String String)) with
        | .error e => .error (.store e)
        | .ok fields =>
          .ok (if fields.isEmpty then none else some ⟨name, fields.erase "name"⟩)) := by
  refine congrArg (Program.call (I := Store.interface) (.getFields (filterKey name))) ?_
  funext reply
  cases reply with
  | error e => rfl
  | ok fields =>
    change Dict String String at fields
    change (if fields.isEmpty = true then (pure none : Registry (Option FilterSpec))
      else pure (some ⟨name, fields.erase "name"⟩)).run = _
    dsimp only
    cases fields.isEmpty <;> rfl

/-- Whatever is found under the key of a filter, a filter that is given has the name that was asked
    for. -/
theorem accounts_requireFilter (name : String) (filed : List Filing) :
    Accounts (fun result filed' => filed' = filed ∧
      ∀ filter, result = .ok filter → filter.name = name)
      (ofRegistry (requireFilter name)).run filed := by
  rw [requireFilter, ofRegistry_bind]
  refine accounts_then (fun result filed' => filed' = filed ∧
    ∀ filter, result = .ok (some filter) → filter.name = name) _ _ _ filed ?_ ?_ ?_
  · rw [ofRegistry, getFilter_run]
    intro reply
    refine ⟨List.append_nil filed, fun filter hfilter => ?_⟩
    -- The hash is read under the name that was asked for, and gives a filter of this name.
    cases reply with
    | error e => cases hfilter
    | ok fields =>
      change Dict String String at fields
      change Except.ok (if fields.isEmpty = true then none else some _) = _ at hfilter
      split at hfilter
      · cases hfilter
      · cases hfilter
        rfl
  · rintro found filed' ⟨hfiled, hname⟩
    cases found with
    | none => exact ⟨hfiled, fun filter hfilter => by cases hfilter⟩
    | some given =>
      refine ⟨hfiled, fun filter hfilter => ?_⟩
      cases hfilter
      exact hname given rfl
  · rintro e filed' ⟨hfiled, -⟩
    exact ⟨hfiled, fun filter hfilter => by cases hfilter⟩

/-- What an action may have filed in the end: nothing, or the entry of its policy. If the entry has
    been filed, the action ends in the id of it or in an error of the storage side. -/
inductive Filed (target : Target) (action : FilterAction) (filed : List Filing) :
    Except EngineError Outcome → List Filing → Prop where
  | refused (error : EngineError) : Filed target action filed (.error error) filed
  | uninstalled (removed : List Nat) :
    Filed target action filed (.ok (.uninstalled removed)) filed
  | installed (e : StaticEntry) (hname : e.filterName = action.filterName) :
    Filed target action filed (.ok (.installed e.policyId)) (filed ++ [Filing.ofEntry target.id e])
  | stored (e : StaticEntry) (hname : e.filterName = action.filterName) (error : EngineError)
    (h : error.isStoreFailure = false) :
    Filed target action filed (.error error) (filed ++ [Filing.ofEntry target.id e])

theorem accounts_nextId (filed : List Filing) :
    Accounts (fun result filed' => filed' = filed ∧
        ∀ error, result = .error error → error.isStoreFailure = true)
      (ofRegistry nextId).run filed := by
  intro reply
  refine ⟨List.append_nil filed, fun error h => ?_⟩
  cases reply with
  | ok id => exact nomatch h
  | error refusal =>
    cases h
    rfl

theorem accounts_putStatic (targetId : String) (e : StaticEntry) (filed : List Filing) :
    Accounts (fun result filed' =>
        result = .ok () ∧ filed' = filed ++ [Filing.ofEntry targetId e] ∨
          ∃ error, result = .error (.store error) ∧ filed' = filed)
      (ofRegistry (putStatic targetId e.policyId e)).run filed := by
  intro reply
  cases reply with
  | ok _ => exact Or.inl ⟨rfl, rfl⟩
  | error error => exact Or.inr ⟨error, rfl, List.append_nil filed⟩

theorem accounts_install (target : Target) (filter : FilterSpec) (e : StaticEntry)
    (filed : List Filing) :
    Accounts (fun result filed' => filed' = filed ∧
        ∀ error, result = .error error → error.isStoreFailure = false)
      (install target filter e).run filed := by
  intro reply
  refine ⟨List.append_nil filed, fun error h => ?_⟩
  cases reply with
  | ok _ => exact nomatch h
  | error refusal =>
    cases h
    exact EngineError.isStoreFailure_ofInstaller refusal

theorem accounts_dispatch (target : Target) (action : FilterAction)
    (objectFilter : Option ObjectFilter) (filed : List Filing) :
    Accounts (Filed target action filed) (dispatch target action objectFilter).run filed := by
  unfold dispatch
  refine accounts_then _ _ _ _ filed (accounts_requireFilter action.filterName filed) ?_ ?_
  · rintro filter filed ⟨rfl, hname⟩
    cases action.verb with
    | set =>
      -- The entry is filed before the storage side is asked, so that both its answers are possible.
      refine accounts_then _ _ _ _ filed (accounts_nextId filed) ?_ ?_
      · rintro id filed ⟨rfl, -⟩
        let e := newEntry id filter.name action objectFilter
        have hname : e.filterName = action.filterName := hname filter rfl
        refine accounts_then _ _ _ _ filed (accounts_putStatic target.id e filed) ?_ ?_
        · rintro ⟨⟩ _ (⟨-, rfl⟩ | ⟨error, h, -⟩)
          · refine accounts_then _ _ _ _ _ (accounts_install target filter e _) ?_ ?_
            · rintro _ _ ⟨rfl, -⟩
              exact .installed e hname
            · rintro error _ ⟨rfl, hside⟩
              exact .stored e hname error (hside error rfl)
          · exact nomatch h
        · rintro error _ (⟨h, -⟩ | ⟨-, -, rfl⟩)
          · exact nomatch h
          · exact .refused error
      · rintro e filed ⟨rfl, -⟩
        exact .refused e
    | delete =>
      have hdelete := silent_program _ (quiet_idle _
        (idle_deleteMatching target.id filter.name))
      refine accounts_then _ _ _ _ filed (accounts_silent (uninstall target filter).run
        ⟨fun _ => rfl, fun _ => trivial⟩ filed) ?_ ?_
      · rintro _ filed rfl
        refine accounts_then _ _ _ _ filed (accounts_silent _ hdelete filed) ?_ ?_
        · rintro removed filed rfl
          exact .uninstalled removed
        · rintro error filed rfl
          exact .refused error
      · rintro error filed rfl
        exact .refused error
  · rintro e filed ⟨rfl, -⟩
    exact .refused e

/-! ### Rules -/

/-- Something is put at the end of what a report tells of. -/
theorem tells_append {done : Deployment} {filed more : List Filing}
    (h : ∀ x ∈ filed, done.Tells x) (hmore : ∀ x ∈ more, done.Tells x) :
    ∀ x ∈ filed ++ more, done.Tells x := by
  intro x hx
  rcases List.mem_append.mp hx with hx | hx
  · exact h x hx
  · exact hmore x hx

/-- The report of a rule without a condition is written on after every action, so that it tells of
    everything whatever ends the rule. -/
theorem accounts_deployStatic (objectFilter : Option ObjectFilter)
    (pairs : List (Target × FilterAction × Nat)) (done : Deployment) (filed : List Filing)
    (h : ∀ x ∈ filed, done.Tells x) :
    Accounts (fun outcome filed' => ∀ x ∈ filed', outcome.1.Tells x)
      (deployStatic objectFilter pairs done) filed := by
  induction pairs generalizing done filed with
  | nil => exact h
  | cons pair rest ih =>
    rcases pair with ⟨target, action, index⟩
    rw [deployStatic]
    refine accounts_bind _ _ _ _ filed (accounts_dispatch target action objectFilter filed) ?_
    intro outcome filed' hfiled
    cases hfiled with
    | refused error =>
      dsimp only
      -- A failure of the store ends the rule, but the report has been written until here.
      cases error.isStoreFailure with
      | true => exact h
      | false => exact ih _ _ fun x hx => (Deployment.extends_failure done _).tells (h x hx)
    | uninstalled removed => exact ih _ _ h
    | installed e hname =>
      have hkept := fun x hx => (Deployment.extends_policy done e.policyId).tells (h x hx)
      refine ih _ _ (tells_append hkept fun x hx => ?_)
      rw [List.mem_singleton.mp hx]
      exact .entry target.id e (Deployment.names_policy done e.policyId target.id e.filterName)
    | stored e hname error herror =>
      dsimp only
      rw [herror]
      have hkept := fun x hx => (Deployment.extends_failure done
        ⟨target.id, action.filterName, error⟩).tells (h x hx)
      refine ih _ _ (tells_append hkept fun x hx => ?_)
      rw [List.mem_singleton.mp hx]
      exact .entry target.id e (Deployment.names_failure done e.policyId
        ⟨target.id, action.filterName, error⟩ e.filterName hname.symm)

theorem filterMap_setFields (key : String) (fields : List (String × String)) :
    (fields.map fun f => Mutation.setField key f.1 f.2).filterMap Mutation.placed? =
      fields.map fun f => ⟨key, f.1, f.2⟩ := by
  induction fields with
  | nil => rfl
  | cons f rest ih => exact congrArg (_ :: ·) ih

/-- What is filed when a record is stored. The change that ends the reservation sets no field. -/
theorem filterMap_recordChanges (r : PolicyRecord) :
    (recordChanges r).filterMap Mutation.placed? = Filing.ofRecord r := by
  unfold recordChanges Filing.ofRecord
  rw [List.filterMap_append, filterMap_setFields]
  exact List.append_nil _

theorem filings_putDynamic (r : PolicyRecord) :
    (Call.store (.apply (recordChanges r))).filings (.ok ()) = [Filing.ofRecord r] := by
  have hfiled : ∀ changes, (Call.store (.apply changes)).filings (.ok ()) =
      [changes.filterMap Mutation.placed?].filter fun x => !x.isEmpty := fun _ => rfl
  rw [hfiled, filterMap_recordChanges]
  rfl

theorem accounts_putDynamic (r : PolicyRecord) (filed : List Filing) :
    Accounts (fun result filed' => result = .ok () ∧ filed' = filed ++ [Filing.ofRecord r] ∨
        ∃ error, result = .error (.store error) ∧ filed' = filed)
      (ofRegistry (putDynamic r)).run filed := by
  intro reply
  cases reply with
  | ok _ => exact Or.inl ⟨rfl, congrArg (filed ++ ·) (filings_putDynamic r)⟩
  | error error => exact Or.inr ⟨error, rfl, List.append_nil filed⟩

/-- A record that is refused is not filed, and giving its id back files nothing either. -/
theorem accounts_storeRecord (r : PolicyRecord) (filed : List Filing) :
    Accounts (fun result filed' => result = .ok () ∧ filed' = filed ++ [Filing.ofRecord r] ∨
        ∃ error, result = .error (.store error) ∧ filed' = filed)
      (storeRecord r).run filed := by
  unfold storeRecord
  refine accounts_then _ _ _ _ filed
    (accounts_attempt _ _ filed (accounts_putDynamic r filed)) ?_ ?_
  · rintro result filed' ⟨_, ⟨⟩, ⟨rfl, rfl⟩ | ⟨error, rfl, rfl⟩⟩
    · exact Or.inl ⟨rfl, rfl⟩
    · have hgiven := accounts_attempt _ _ filed' (accounts_silent _ (silent_releaseId r.id) filed')
      refine accounts_then (fun result filed => result = .ok () ∧ filed = filed') _
        (discard (attempt (ofRegistry (releaseId r.id)))) _ filed' ?_ ?_ ?_
      · refine accounts_then _ _ _ (fun _ => pure ()) filed' hgiven ?_ ?_
        · rintro _ filed ⟨_, -, rfl⟩
          exact ⟨rfl, rfl⟩
        · rintro _ _ ⟨_, h, -⟩
          exact nomatch h
      · rintro _ filed ⟨-, rfl⟩
        exact Or.inr ⟨error, rfl, rfl⟩
      · rintro _ _ ⟨h, -⟩
        exact nomatch h
  · rintro e filed' ⟨result, h, -⟩
    exact nomatch h

/-- The filings of the first pairs of a rule, which are given ids. -/
def recordsOf (settings : Settings) (text conditionText : String) (rule : Rule)
    (pairs : List (Target × FilterAction × Nat)) (ids : List Nat) : List Filing :=
  (pairs.zip ids).map fun x =>
    Filing.ofRecord (newRecord settings x.2 text conditionText rule x.1.1 x.1.2.1 x.1.2.2)

/-- What a rule with a condition has filed in the end: the records of all of its pairs, of which the
    report tells, or those of the first ones if the store has failed. -/
inductive Recorded (records : List Nat → List Filing) (count : Nat) (done : Deployment)
    (filed : List Filing) : Except EngineError Deployment → List Filing → Prop where
  | all (ids : List Nat) (hcount : ids.length = count) (done' : Deployment)
    (hextends : done.Extends done') (htold : ∀ x ∈ records ids, done'.Tells x) :
    Recorded records count done filed (.ok done') (filed ++ records ids)
  | first (ids : List Nat) (hcount : ids.length < count) (error : EngineError)
    (h : error.isStoreFailure = true) :
    Recorded records count done filed (.error error) (filed ++ records ids)

section Pairs

variable (settings : Settings) (text conditionText : String) (rule : Rule)

theorem recordsOf_nil (pairs : List (Target × FilterAction × Nat)) :
    recordsOf settings text conditionText rule pairs [] = [] := by
  rw [recordsOf, List.zip_nil_right, List.map_nil]

/-- If the first pair is not recorded nothing is. -/
theorem recorded_none (pair : Target × FilterAction × Nat)
    (rest : List (Target × FilterAction × Nat)) (done : Deployment) (filed : List Filing)
    (error : EngineError) (h : error.isStoreFailure = true) :
    Recorded (recordsOf settings text conditionText rule (pair :: rest)) (pair :: rest).length done
      filed (.error error) filed := by
  have hfirst : Recorded (recordsOf settings text conditionText rule (pair :: rest))
      (pair :: rest).length done filed (.error error)
      (filed ++ recordsOf settings text conditionText rule (pair :: rest) []) :=
    .first [] (Nat.succ_pos rest.length) error h
  rw [recordsOf_nil, List.append_nil] at hfirst
  exact hfirst

/-- The record of the first pair comes before those of the others. Its policy is named when the
    deployment of the others begins. -/
theorem recorded_cons (target : Target) (action : FilterAction) (index : Nat)
    (rest : List (Target × FilterAction × Nat)) (done more : Deployment) (filed : List Filing)
    (id : Nat) (hextends : done.Extends more) (hnames : more.Names id target.id action.filterName)
    (result : Except EngineError Deployment) (filed' : List Filing)
    (h : Recorded (recordsOf settings text conditionText rule rest) rest.length more
      (filed ++ [Filing.ofRecord
        (newRecord settings id text conditionText rule target action index)]) result filed') :
    Recorded (recordsOf settings text conditionText rule ((target, action, index) :: rest))
      ((target, action, index) :: rest).length done filed result filed' := by
  have hcons : ∀ ids, recordsOf settings text conditionText rule ((target, action, index) :: rest)
      (id :: ids) = [Filing.ofRecord
        (newRecord settings id text conditionText rule target action index)] ++
          recordsOf settings text conditionText rule rest ids := fun _ => rfl
  cases h with
  | all ids hcount done' hmore htold =>
    rw [List.append_assoc, ← hcons]
    refine .all (id :: ids) (congrArg (· + 1) hcount) done' (hextends.trans hmore) ?_
    rw [hcons]
    refine tells_append (fun x hx => ?_) htold
    rw [List.mem_singleton.mp hx]
    exact hmore.tells (.record _ hnames)
  | first ids hcount error herror =>
    rw [List.append_assoc, ← hcons]
    exact .first (id :: ids) (Nat.succ_lt_succ hcount) error herror

theorem accounts_deployPairs (pairs : List (Target × FilterAction × Nat)) (done : Deployment)
    (filed : List Filing) :
    Accounts (Recorded (recordsOf settings text conditionText rule pairs) pairs.length done filed)
      (deployPairs settings text conditionText rule pairs done).run filed := by
  induction pairs generalizing done filed with
  | nil =>
    have hall : Recorded (recordsOf settings text conditionText rule []) 0 done filed (.ok done)
        (filed ++ recordsOf settings text conditionText rule [] []) :=
      .all [] rfl done (Deployment.extends_refl done) fun x hx => absurd hx List.not_mem_nil
    rw [recordsOf_nil, List.append_nil] at hall
    exact hall
  | cons pair rest ih =>
    rcases pair with ⟨target, action, index⟩
    have hnone := recorded_none settings text conditionText rule (target, action, index) rest done
      filed
    unfold deployPairs
    -- Whichever of the calls for the first pair fails, its record has not been filed.
    refine accounts_then _ _ _ _ filed (accounts_nextId filed) ?_ ?_
    · rintro id filed ⟨rfl, -⟩
      let r := newRecord settings id text conditionText rule target action index
      refine accounts_then _ _ _ _ filed (accounts_storeRecord r filed) ?_ ?_
      · rintro ⟨⟩ _ (⟨-, rfl⟩ | ⟨error, h, -⟩)
        · -- The record stays whether or not its monitor is started, and the report names it.
          refine accounts_then _ _ _ _ _ (accounts_attempt _ _ _ (accounts_silent _
            (silent_program _ (quiet_spawn r ⟨target, action, rule.objectFilter⟩)) _)) ?_ ?_
          · rintro started _ ⟨_, -, rfl⟩
            cases started with
            | ok handle =>
              refine accounts_mono _ _ ?_ _ _ (ih _ _)
              exact recorded_cons settings text conditionText rule target action index rest done _
                filed id (Deployment.extends_policy done id) (Deployment.names_policy done id _ _)
            | error error =>
              refine accounts_mono _ _ ?_ _ _ (ih _ _)
              exact recorded_cons settings text conditionText rule target action index rest done _
                filed id (Deployment.extends_failure done _)
                (Deployment.names_failure done id _ _ rfl)
          · rintro _ _ ⟨_, h, -⟩
            cases h
        · cases h
      · rintro _ _ (⟨h, -⟩ | ⟨error, h, rfl⟩)
        · cases h
        · cases h
          exact hnone _ rfl
    · rintro error filed ⟨rfl, hstore⟩
      exact hnone error (hstore error rfl)

end Pairs

end Engine

open Engine

/-- A line that the store has cut off: it is a rule with a condition that has passed its checks, and
    the records of the first of its pairs have been filed, but not those of all. -/
def Session.CutOff (s : Session) (directory : Directory) (settings : Settings) (line : String)
    (filed : List Filing) : Prop :=
  ∃ rule conditionText targets ids, Rule.parse line = .ok rule ∧
    rule.conditionText = some conditionText ∧
    (s.run (ofRegistry (check directory rule)).run).1 = .ok targets ∧
    ids.length < (pairs rule targets).length ∧
    filed = recordsOf settings line conditionText rule (pairs rule targets) ids

/-- What the report of a line tells: of everything that has been filed, unless the line is a rule
    with a condition and ends in an error. Then it tells of nothing. -/
structure Session.Reported (s : Session) (directory : Directory) (settings : Settings)
    (line : String) (report : LineReport) (filed : List Filing) : Prop where
  told : report.isDynamic = false ∨ report.error = none → ∀ x ∈ filed, report.done.Tells x
  untold : report.isDynamic = true → ∀ e, report.error = some e → report.done = {} ∧
    (filed = [] ∨ e.isStoreFailure = true ∧ s.CutOff directory settings line filed)

namespace Session

variable (s : Session) (directory : Directory) (settings : Settings)

/-- An error of which nothing has been filed. -/
theorem reported_refused (line : String) (rule : String) (isDynamic : Bool) (error : EngineError) :
    s.Reported directory settings line { rule, isDynamic, error := some error } [] where
  told _ _ hx := nomatch hx
  untold _ _ _ := ⟨rfl, Or.inl rfl⟩

/-- The report of a rule that has passed its checks. -/
theorem accounts_checked (line : String) (rule : Rule) (targets : List Target)
    (hparse : Rule.parse line = .ok rule)
    (hcheck : (s.run (ofRegistry (check directory rule)).run).1 = .ok targets) :
    Accounts (fun (outcome : Deployment × Option EngineError) filed =>
        s.Reported directory settings line ⟨line, rule.isDynamic, outcome.1, outcome.2⟩ filed)
      (if rule.isDynamic then do
        match ← (deployDynamic settings line rule targets).run with
        | .ok done => return (done, none)
        | .error e => return ({}, some e)
      else deployStatic rule.objectFilter (pairs rule targets) {}) [] := by
  -- A static rule is told action by action. A dynamic one either records all of its pairs or ends
  -- at the first that fails.
  cases hdynamic : rule.isDynamic with
  | false =>
    refine accounts_mono _ _ ?_ _ _
      (accounts_deployStatic rule.objectFilter (pairs rule targets) {} []
        fun x hx => absurd hx List.not_mem_nil)
    intro outcome filed htold
    exact { told := fun _ => htold, untold := fun h => absurd h Bool.false_ne_true }
  | true =>
    rw [if_pos rfl, deployDynamic]
    cases hcondition : rule.conditionText with
    | none => exact s.reported_refused directory settings line line true .ruleWithoutCondition
    | some conditionText =>
      refine accounts_bind _ _ _ _ _
        (accounts_deployPairs settings line conditionText rule (pairs rule targets) {} []) ?_
      intro result filed hrecorded
      cases hrecorded with
      | all ids hcount done hextends htold =>
        exact { told := fun _ => htold, untold := fun _ e h => absurd h (by simp) }
      | first ids hcount error herror =>
        refine { told := fun h => ?_, untold := fun _ e h => ?_ }
        · rcases h with h | h <;> cases h
        · cases h
          exact ⟨rfl, Or.inr ⟨herror, rule, conditionText, targets, ids, hparse, hcondition,
            hcheck, hcount, rfl⟩⟩

/-- What has been filed when a line ends is told by its report, but for the first records of a rule
    with a condition that a failure of the store has cut off. Nothing but what has been filed is
    found in the end if it has not been there before. -/
theorem reported_of_run (line : String) :
    s.Reported directory settings line (s.run (deployLine directory settings line)).1
        (s.filings (deployLine directory settings line)) ∧
      ∀ key name, key ≠ counterKey → key ≠ reservationKey →
        ((s.run (deployLine directory settings line)).2.store.field? key name).isSome = true →
        (s.store.field? key name).isSome = true ∨
          Filing.Covers (s.filings (deployLine directory settings line)) key name := by
  refine ⟨?_, filed_of_found _ (usual_deployLine settings directory line) s⟩
  rw [deployLine]
  cases hparse : Rule.parse line with
  | error e => exact s.reported_refused directory settings line line false (.malformedRule e)
  | ok rule =>
    have hsilent := silent_program _ (quiet_idle _ (idle_check directory rule))
    dsimp only
    rw [deployRule, filings_bind, filings_bind, filings_of_silent s _ hsilent, run_bind, run_bind]
    cases hcheck : (s.run (ofRegistry (check directory rule)).run).1 with
    | error e => exact s.reported_refused directory settings line line rule.isDynamic e
    | ok targets =>
      have hrun := accounts_run _ _ []
        (s.accounts_checked directory settings line rule targets hparse hcheck)
        (s.run (ofRegistry (check directory rule)).run).2
      rw [List.nil_append] at hrun ⊢
      exact (List.append_nil _).symm ▸ hrun

/-- A session in which a text stands where the second record will have to be put. -/
def withoutSecondRecord : Session where
  backend :=
    { data := Dict.ofList
        [(filterKey "compress", .hash (Dict.ofList [("name", "compress")])),
          (PolicyRecord.storeKey 2, .scalar "x")] }

/-- A directory with two tenants. -/
def aliceAndBob : Directory :=
  .fixed { names := Dict.ofList [("t1", "alice"), ("t2", "bob")], enabled := ["t1", "t2"] }

/-- A rule with a condition on both. -/
def forBoth : String := "TENANT alice, TENANT bob WHEN put_bw > 1 DO SET compress"

/-- The record for the first tenant is stored, and that for the second is refused. -/
theorem cutOff_forBoth :
    (withoutSecondRecord.run (deployLine aliceAndBob {} forBoth)).1 =
        { rule := forBoth, isDynamic := true, error := some (.store (.wrongType "policy:2")) } ∧
      ∃ x ∈ withoutSecondRecord.filings (deployLine aliceAndBob {} forBoth), ∀ field ∈ x,
        (withoutSecondRecord.run (deployLine aliceAndBob {} forBoth)).2.store.field? field.key
          field.name = some field.value := by
  decide +kernel

/-- A report does not tell of all that has been filed and is still stored when the line ends. -/
theorem not_forall_told :
    ¬ ∀ (s : Session) directory settings line,
      ∀ x ∈ s.filings (deployLine directory settings line),
        (∀ field ∈ x, (s.run (deployLine directory settings line)).2.store.field? field.key
          field.name = some field.value) →
        (s.run (deployLine directory settings line)).1.done.Tells x := by
  intro h
  rcases cutOff_forBoth with ⟨hreport, x, hfiled, hstored⟩
  have htold := h withoutSecondRecord aliceAndBob {} forBoth x hfiled hstored
  rw [hreport] at htold
  exact Deployment.not_tells_empty x htold

end Session

end StoragePolicy
