import StoragePolicy.Proofs.Engine.Operations

/-!
# Lines that are rejected

A line of a text is rejected if it is no rule, if one of its targets is unknown or not enabled, or
if one of its filters is unknown. All of this is found out by looking at the catalog, before
anything is done, so a rejected line leaves no trace. And since no line touches the catalog, a line
that is rejected in one place of a text is rejected in every other, so that such lines may be taken
out of a text or put into it without a difference to the others.

Nothing is assumed of the session: its store may refuse calls, and its monitors may be in any state.
A line that ends for a failure of the store is not rejected, because it may have been under way.

## Main definitions

* `LineReport.Rejected`: A line that was rejected.
* `Thinned`: A list with some of its items taken out.
* `Session.SameOutside`: Sessions that do not differ in what rules are checked against.
* `Store.Call.Looks`: Calls that look at the catalog.

## Theorems

* `run_looks`: A program that looks at the catalog answers the same wherever the catalog is the
  same.
* `sameOutside_deployLine`: A line does not touch what rules are checked against.
* `run_deployLine_rejected`: A rejected line leaves no trace, and it is rejected everywhere.
* `deploy_thinned`: Rejected lines may be taken out of a text and put into it.
-/

namespace StoragePolicy

open Registry

/-- A line that was rejected: it ended in an error, and not for a failure of the store. -/
def Engine.LineReport.Rejected (r : Engine.LineReport) : Prop :=
  ∃ e, r.error = some e ∧ e.isStoreFailure = false

/-- The second list is the first with some items taken out, all of which may be. -/
inductive Thinned {α : Type} (may : α → Prop) : List α → List α → Prop where
  | nil : Thinned may [] []
  | keep (a : α) (items kept : List α) (h : Thinned may items kept) :
      Thinned may (a :: items) (a :: kept)
  | drop (a : α) (items kept : List α) (ha : may a) (h : Thinned may items kept) :
      Thinned may (a :: items) kept

/-- The calls that look at the catalog. -/
def Store.Call.Looks : Store.Call → Prop
  | .getFields key | .getItems key => ¬ Own key
  | _ => False

theorem Directory.enabledKey_not_own : ¬ Own enabledKey := by
  rintro (h | h | ⟨targetId, h⟩ | ⟨name, h⟩)
  · exact absurd h (by decide)
  · exact absurd h (by decide)
  · have hchars := congrArg String.toList h
    simp [enabledKey, pipelineKey, pipelineStem] at hchars
  · have hchars := congrArg String.toList h
    simp [enabledKey, PolicyRecord.keyStem] at hchars

namespace Registry

theorem looks_check (directory : Directory) (rule : Rule) :
    (Engine.check directory rule).run.Makes Store.Call.Looks :=
  makes_check _ directory Directory.namesKey_not_own Directory.enabledKey_not_own
    Session.not_own_filterKey rule

theorem on_looks {α : Type} (p : Registry α) (hp : p.run.Makes Store.Call.Looks) (d : Store) :
    (on p d).2 = d := by
  refine on_invariant Store.Call.Looks (fun d' => d' = d) (fun c d' hc hd' => ?_) p hp d rfl
  rw [← hd']
  cases c with
  | getFields key => rfl
  | getItems key => rfl
  | _ => exact False.elim hc

theorem on_requireFilter (name : String) (d : Store) (filter : FilterSpec)
    (h : (on (getFilter name) d).1 = .ok (some filter)) :
    (on (requireFilter name) d).1 = .ok filter := by
  rw [requireFilter, on_bind_ok _ _ d (on (getFilter name) d).2 (some filter) (Prod.ext h rfl)]
  rfl

end Registry

namespace Session

/-! ### Looking at the catalog -/

/-- Sessions whose stores refuse the same calls and do not differ in the catalog. -/
structure SameOutside (s t : Session) : Prop where
  refusal : t.backend.refusal = s.backend.refusal
  catalog : s.store.SameCatalog t.store

theorem sameOutside_refl (s : Session) : s.SameOutside s := ⟨rfl, fun _ _ => rfl⟩

theorem sameOutside_trans (s t u : Session) (h : s.SameOutside t) (h' : t.SameOutside u) :
    s.SameOutside u :=
  ⟨h'.refusal.trans h.refusal, fun key hkey => (h'.catalog key hkey).trans (h.catalog key hkey)⟩

section Looks

variable (s t : Session) (h : s.SameOutside t)

include h

/-- What a look at the catalog answers depends on the catalog only, and it changes nothing. -/
theorem exec_looks (c : Store.Call) (hc : c.Looks) :
    exec (.store c) t = ((exec (.store c) s).1, t) := by
  have hrefusal := congrFun h.refusal c
  have hanswer : (t.backend.data.exec c).1 = (s.backend.data.exec c).1 ∧
      (t.backend.data.exec c).2 = t.backend.data := by
    cases c with
    | getFields key => exact ⟨Store.hashAt_congr _ _ key (h.catalog key hc), rfl⟩
    | getItems key =>
      refine ⟨?_, rfl⟩
      simp only [Store.exec, Store.listAt]
      have hget : t.backend.data.get? key = s.backend.data.get? key := h.catalog key hc
      rw [hget]
    | _ => exact False.elim hc
  simp only [exec, Backend.exec, hrefusal]
  cases s.backend.refusal c with
  | some e => rfl
  | none =>
    dsimp only
    rw [hanswer.1, hanswer.2]

/-- A program that looks at the catalog answers the same wherever the catalog is the same, and it
    changes nothing. -/
theorem run_looks {α : Type} (p : Registry α) (hp : p.run.Makes Store.Call.Looks) :
    t.run (Engine.ofRegistry p).run = ((s.run (Engine.ofRegistry p).run).1, t) := by
  have hembed : ∀ q : Program Store.interface (Except EngineError α),
      q.Makes Store.Call.Looks → t.run (q.embed fun c => Engine.ask (.store c)) =
        ((s.run (q.embed fun c => Engine.ask (.store c))).1, t) := by
    intro q
    induction q with
    | done a => exact fun _ => rfl
    | call c next ih =>
      intro hq
      have hstep : ∀ u : Session, u.run ((Program.call c next).embed
          fun c => Engine.ask (.store c)) = (exec (.store c) u).2.run
            ((next (exec (.store c) u).1).embed fun c => Engine.ask (.store c)) := fun _ => rfl
      have hs := exec_looks s s (sameOutside_refl s) c hq.1
      rw [hstep, hstep, exec_looks s t h c hq.1, hs]
      exact ih _ (hq.2 _)
  exact hembed p.run hp

end Looks

theorem on_looks_congr {α : Type} (p : Registry α) (hp : p.run.Makes Store.Call.Looks)
    (d d' : Store) (h : d.SameCatalog d') : (on p d').1 = (on p d).1 := by
  have hrun := congrArg Prod.fst (run_looks { backend := { data := d } }
    { backend := { data := d' } } ⟨rfl, h⟩ p hp)
  rw [run_ofRegistry { backend := { data := d } } p rfl,
    run_ofRegistry { backend := { data := d' } } p rfl] at hrun
  exact hrun

/-! ### What a line leaves alone -/

/-- A usual call does not touch what rules are checked against. -/
theorem sameOutside_exec (s t : Session) (h : s.SameOutside t) (c : Engine.Call) (hc : c.Usual) :
    s.SameOutside (exec c t).2 := by
  refine sameOutside_trans s t _ h ?_
  cases c with
  | store c =>
    simp only [exec, Backend.exec]
    cases t.backend.refusal c with
    | some e => exact sameOutside_refl t
    | none =>
      refine ⟨rfl, fun key hkey => Store.get?_exec _ c key fun hmem => ?_⟩
      exact hkey (Store.own_of_usual c hc key hmem)
  | _ => exact ⟨rfl, fun _ _ => rfl⟩

theorem sameOutside_deployLine (directory : Directory) (settings : Engine.Settings)
    (line : String) (s : Session) :
    s.SameOutside (s.run (Engine.deployLine directory settings line)).2 :=
  run_invariant Engine.Call.Usual (fun t => s.SameOutside t)
    (fun c t hc ht => sameOutside_exec s t ht c hc) _
    (Engine.usual_deployLine settings directory line) s (sameOutside_refl s)

/-! ### Failures of the store -/

/-- A program whose errors are failures of the store. -/
def FailsByStore {α : Type} (p : Engine α) : Prop :=
  ∀ (s : Session) (e : EngineError), (s.run p.run).1 = .error e → e.isStoreFailure = true

section FailsByStore

variable {α β : Type}

theorem failsByStore_then (p : Engine α) (f : α → Engine β) (hp : FailsByStore p)
    (hf : ∀ a, FailsByStore (f a)) : FailsByStore (p >>= f) := by
  intro s e he
  rw [run_bindCont] at he
  cases hresult : (s.run p.run).1 with
  | ok a =>
    rw [hresult] at he
    exact hf a _ e he
  | error e' =>
    rw [hresult] at he
    cases he
    exact hp s _ hresult

theorem failsByStore_pure (a : α) : FailsByStore (pure a : Engine α) := fun _ _ he => nomatch he

theorem failsByStore_attempt (p : Engine α) : FailsByStore (Engine.attempt p) := by
  intro s e he
  rw [run_attempt] at he
  exact nomatch he

theorem failsByStore_ask (c : Store.Call) :
    FailsByStore (Engine.ofRegistry (ask c) : Engine c.Answer) := by
  intro s e he
  have hrun : (s.run (Engine.ofRegistry (ask c)).run).1 =
      Except.mapError .store (exec (.store c) s).1 := rfl
  rw [hrun] at he
  cases hreply : (exec (.store c) s).1 with
  | ok a =>
    rw [hreply] at he
    exact nomatch he
  | error e' =>
    rw [hreply] at he
    cases he
    rfl

/-- The error of a record that is not stored is that of the store, whatever becomes of its id. -/
theorem failsByStore_storeRecord (r : PolicyRecord) : FailsByStore (Engine.storeRecord r) := by
  intro s e he
  rw [Engine.storeRecord, run_bind_ok s _ _ _ _ (run_attempt s _)] at he
  cases hput : (s.run (Engine.ofRegistry (putDynamic r)).run).1 with
  | ok done =>
    rw [hput] at he
    cases he
  | error e' =>
    rw [hput] at he
    have hput' := failsByStore_ask (.apply (recordChanges r)) s e' hput
    dsimp only at he
    rw [run_bind_ok _ _ _ _ _ (by rw [run_discard, run_attempt]; rfl)] at he
    cases he
    exact hput'

theorem failsByStore_deployPairs (settings : Engine.Settings) (text conditionText : String)
    (rule : Rule) (pairs : List (Target × FilterAction × Nat)) (done : Engine.Deployment) :
    FailsByStore (Engine.deployPairs settings text conditionText rule pairs done) := by
  induction pairs generalizing done with
  | nil => exact failsByStore_pure _
  | cons pair rest ih =>
    rcases pair with ⟨target, action, index⟩
    refine failsByStore_then _ _ (failsByStore_ask nextIdCall) fun id => ?_
    refine failsByStore_then _ _ (failsByStore_storeRecord _) fun _ => ?_
    refine failsByStore_then _ _ (failsByStore_attempt _) fun outcome => ?_
    cases outcome with
    | ok handle => exact ih _
    | error e => exact ih _

/-- What ends the actions of a static rule is a failure of the store. -/
theorem isStoreFailure_of_deployStatic (objectFilter : Option ObjectFilter)
    (pairs : List (Target × FilterAction × Nat)) (done : Engine.Deployment) (s : Session)
    (e : EngineError)
    (he : (s.run (Engine.deployStatic objectFilter pairs done)).1.2 = some e) :
    e.isStoreFailure = true := by
  induction pairs generalizing done s with
  | nil => exact nomatch he
  | cons pair rest ih =>
    rcases pair with ⟨target, action, index⟩
    rw [Engine.deployStatic, run_bind] at he
    generalize s.run (Engine.dispatch target action objectFilter).run = result at he
    rcases result with ⟨outcome, t⟩
    match outcome with
    | .ok (.installed id) => exact ih _ t he
    | .ok (.uninstalled removed) => exact ih _ t he
    | .error e' =>
      dsimp only at he
      split at he
      · rename_i hfailure
        cases he
        exact hfailure
      · exact ih _ t he

end FailsByStore

/-! ### Rejected lines -/

section Rejected

variable (directory : Directory) (settings : Engine.Settings)

/-- A rule that ends in an error which is no failure of the store has only been checked, and
    wherever the catalog is the same it ends in the same. -/
theorem run_deployRule_rejected (line : String) (rule : Rule) (s t : Session)
    (h : s.SameOutside t) (e : EngineError)
    (he : (s.run (Engine.deployRule directory settings line rule)).1.2 = some e)
    (hstore : e.isStoreFailure = false) :
    t.run (Engine.deployRule directory settings line rule) =
      ((s.run (Engine.deployRule directory settings line rule)).1, t) := by
  have hs := run_looks s s (sameOutside_refl s) _ (looks_check directory rule)
  have ht := run_looks s t h _ (looks_check directory rule)
  rw [Engine.deployRule, run_bind, hs] at he
  rw [Engine.deployRule, run_bind t, run_bind s, hs, ht]
  cases hchecked : (s.run (Engine.ofRegistry (Engine.check directory rule)).run).1 with
  | error e' => rfl
  | ok targets =>
    rw [hchecked] at he
    dsimp only at he ⊢
    split at he
    · rename_i hdynamic
      rw [if_pos hdynamic]
      rw [Engine.deployDynamic] at he ⊢
      cases hcondition : rule.conditionText with
      | none => rfl
      | some conditionText =>
        -- Once records are stored, only the store is to blame.
        rw [hcondition] at he
        dsimp only at he
        rw [run_bind] at he
        have hfails := failsByStore_deployPairs settings line conditionText rule
          (Engine.pairs rule targets) {} s
        generalize s.run (Engine.deployPairs settings line conditionText rule
          (Engine.pairs rule targets) {}).run = result at he hfails
        rcases result with ⟨outcome, u⟩
        cases outcome with
        | ok done => cases he
        | error e' =>
          cases he
          rw [hfails e rfl] at hstore
          cases hstore
    · rw [isStoreFailure_of_deployStatic _ _ _ s e he] at hstore
      cases hstore

theorem rule_deployLine (line : String) (s : Session) :
    (s.run (Engine.deployLine directory settings line)).1.rule = line := by
  rw [Engine.deployLine]
  cases Rule.parse line with
  | error e => rfl
  | ok rule =>
    dsimp only
    rw [run_bind]
    rfl

/-- A rejected line leaves no trace, and it is rejected wherever the catalog is the same. -/
theorem run_deployLine_rejected (line : String) (s t : Session) (h : s.SameOutside t)
    (hrejected : (s.run (Engine.deployLine directory settings line)).1.Rejected) :
    t.run (Engine.deployLine directory settings line) =
      ((s.run (Engine.deployLine directory settings line)).1, t) := by
  rw [Engine.deployLine] at hrejected ⊢
  cases hparse : Rule.parse line with
  | error e => rfl
  | ok rule =>
    rw [hparse] at hrejected
    dsimp only at hrejected ⊢
    rw [run_bind] at hrejected ⊢
    rcases hrejected with ⟨e, he, hstore⟩
    rw [run_bind, run_deployRule_rejected directory settings line rule s t h e he hstore]
    rfl

/-! ### Texts -/

theorem run_deployLines_cons (line : String) (rest : List String) (s : Session) :
    s.run (Engine.deployLines directory settings (line :: rest)) =
      ((s.run (Engine.deployLine directory settings line)).1 ::
          ((s.run (Engine.deployLine directory settings line)).2.run
            (Engine.deployLines directory settings rest)).1,
        ((s.run (Engine.deployLine directory settings line)).2.run
          (Engine.deployLines directory settings rest)).2) := by
  rw [Engine.deployLines, run_bind, run_bind]
  rfl

/-- The reports are about the lines, one by one. -/
theorem rules_deployLines (lines : List String) (s : Session) :
    (s.run (Engine.deployLines directory settings lines)).1.map Engine.LineReport.rule =
      lines := by
  induction lines generalizing s with
  | nil => rfl
  | cons line rest ih =>
    rw [run_deployLines_cons, List.map_cons, rule_deployLine, ih]

/-- Rejected lines may be taken out. -/
theorem run_deployLines_drop (reports reports' : List Engine.LineReport)
    (hthinned : Thinned Engine.LineReport.Rejected reports reports') (s t : Session)
    (h : s.run (Engine.deployLines directory settings (reports.map Engine.LineReport.rule)) =
      (reports, t)) :
    s.run (Engine.deployLines directory settings (reports'.map Engine.LineReport.rule)) =
      (reports', t) := by
  induction hthinned generalizing s with
  | nil => exact h
  | keep r reports reports' hthinned ih =>
    rw [List.map_cons, run_deployLines_cons] at h ⊢
    rcases Prod.mk.inj h with ⟨hlist, hlast⟩
    rcases List.cons.inj hlist with ⟨hfirst, hrest⟩
    rw [ih _ (Prod.ext hrest hlast), hfirst]
  | drop r reports reports' hrejected hthinned ih =>
    rw [List.map_cons, run_deployLines_cons] at h
    rcases Prod.mk.inj h with ⟨hlist, hlast⟩
    rcases List.cons.inj hlist with ⟨hfirst, hrest⟩
    have hstay := run_deployLine_rejected directory settings r.rule s s (sameOutside_refl s)
      (by rw [hfirst]; exact hrejected)
    rw [hstay] at hrest hlast
    exact ih s (Prod.ext hrest hlast)

/-- Lines that are rejected at the beginning may be put in anywhere. -/
theorem run_deployLines_insert (s : Session) (reports reports' : List Engine.LineReport)
    (hthinned : Thinned (fun r => r.Rejected ∧
      (s.run (Engine.deployLine directory settings r.rule)).1 = r) reports reports')
    (u t : Session) (hsame : s.SameOutside u)
    (h : u.run (Engine.deployLines directory settings (reports'.map Engine.LineReport.rule)) =
      (reports', t)) :
    u.run (Engine.deployLines directory settings (reports.map Engine.LineReport.rule)) =
      (reports, t) := by
  induction hthinned generalizing u with
  | nil => exact h
  | keep r reports reports' hthinned ih =>
    rw [List.map_cons, run_deployLines_cons] at h ⊢
    rcases Prod.mk.inj h with ⟨hlist, hlast⟩
    rcases List.cons.inj hlist with ⟨hfirst, hrest⟩
    have hafter := sameOutside_trans s u _ hsame
      (sameOutside_deployLine directory settings r.rule u)
    rw [ih _ hafter (Prod.ext hrest hlast), hfirst]
  | drop r reports reports' hrejected hthinned ih =>
    have hstay := run_deployLine_rejected directory settings r.rule s u hsame
      (by rw [hrejected.2]; exact hrejected.1)
    rw [List.map_cons, run_deployLines_cons, hstay, ih u hsame h, hrejected.2]

theorem run_deploy (text : String) (s : Session) :
    s.run (Engine.deploy directory settings text) =
      ({ lines := (s.run (Engine.deployLines directory settings (Engine.ruleLines text))).1 },
        (s.run (Engine.deployLines directory settings (Engine.ruleLines text))).2) := by
  rw [Engine.deploy, run_bind]
  rfl

/-- The outcome of a text is that of its lines. -/
theorem run_deploy_eq_iff (text : String) (s t : Session) (reports : List Engine.LineReport) :
    s.run (Engine.deploy directory settings text) = ({ lines := reports }, t) ↔
      s.run (Engine.deployLines directory settings (Engine.ruleLines text)) = (reports, t) := by
  rw [run_deploy, Prod.ext_iff, Prod.ext_iff, Engine.DeployReport.mk.injEq]

/-- A rejected line leaves the session as it was. Hence a text whose outcome is known has the same
    outcome up to the reports of rejected lines if such lines are taken out of it, and if lines are
    put into it, wherever that may be, that would be rejected if they stood alone. -/
theorem deploy_thinned (s : Session) :
    (∀ line, (s.run (Engine.deployLine directory settings line)).1.Rejected →
      (s.run (Engine.deployLine directory settings line)).2 = s) ∧
    (∀ text text' reports reports' t,
      s.run (Engine.deploy directory settings text) = ({ lines := reports }, t) →
      Thinned Engine.LineReport.Rejected reports reports' →
      Engine.ruleLines text' = reports'.map Engine.LineReport.rule →
      s.run (Engine.deploy directory settings text') = ({ lines := reports' }, t)) ∧
    (∀ text text' reports reports' t,
      s.run (Engine.deploy directory settings text') = ({ lines := reports' }, t) →
      Thinned (fun r => r.Rejected ∧
        (s.run (Engine.deployLine directory settings r.rule)).1 = r) reports reports' →
      Engine.ruleLines text = reports.map Engine.LineReport.rule →
      s.run (Engine.deploy directory settings text) = ({ lines := reports }, t)) := by
  have hlines : ∀ text reports t,
      s.run (Engine.deployLines directory settings (Engine.ruleLines text)) = (reports, t) →
      Engine.ruleLines text = reports.map Engine.LineReport.rule := by
    intro text reports t h
    have hrules := rules_deployLines directory settings (Engine.ruleLines text) s
    rw [h] at hrules
    exact hrules.symm
  refine ⟨fun line hrejected => ?_, fun text text' reports reports' t h hthinned htext => ?_,
    fun text text' reports reports' t h hthinned htext => ?_⟩
  · rw [run_deployLine_rejected directory settings line s s (sameOutside_refl s) hrejected]
  · rw [run_deploy_eq_iff] at h ⊢
    rw [hlines text reports t h] at h
    rw [htext]
    exact run_deployLines_drop directory settings reports reports' hthinned s t h
  · rw [run_deploy_eq_iff] at h ⊢
    rw [hlines text' reports' t h] at h
    rw [htext]
    exact run_deployLines_insert directory settings s reports reports' hthinned s t
      (sameOutside_refl s) h

end Rejected

/-- A rule whose filters are known. -/
def compressLine : String := "TENANT alice DO SET compress"

/-- A rule of whose filters only the first is known. -/
def encryptLine : String := "TENANT alice DO SET compress, SET encrypt"

/-- What becomes of the first rule at the beginning. -/
def compressReport : Engine.LineReport := { rule := compressLine, done := { policies := [1] } }

/-- What becomes of the second rule. -/
def encryptReport : Engine.LineReport :=
  { rule := encryptLine, error := some (.unknownFilter "encrypt") }

/-- A rule is rejected for its second filter, and it may be taken out of a text or put before
    another. -/
theorem deploy_thinned_second_filter :
    (withCompress.run (Engine.deployLine alice {} encryptLine)).2 = withCompress ∧
    withCompress.run (Engine.deploy alice {} compressLine) = ({ lines := [compressReport] },
      (withCompress.run (Engine.deploy alice {} (compressLine ++ "\n" ++ encryptLine))).2) ∧
    withCompress.run (Engine.deploy alice {} (encryptLine ++ "\n" ++ compressLine)) =
      ({ lines := [encryptReport, compressReport] },
        (withCompress.run (Engine.deploy alice {} compressLine)).2) := by
  have hrejected : encryptReport.Rejected := ⟨_, rfl, rfl⟩
  have halone : (withCompress.run (Engine.deployLine alice {} encryptLine)).1 = encryptReport := by
    decide +kernel
  have hboth : (withCompress.run (Engine.deploy alice {}
      (compressLine ++ "\n" ++ encryptLine))).1 = { lines := [compressReport, encryptReport] } := by
    decide +kernel
  have hone : (withCompress.run (Engine.deploy alice {} compressLine)).1 =
      { lines := [compressReport] } := by decide +kernel
  rcases deploy_thinned alice {} withCompress with ⟨hstay, hdrop, hinsert⟩
  refine ⟨hstay encryptLine (by rw [halone]; exact hrejected),
    hdrop (compressLine ++ "\n" ++ encryptLine) compressLine _ _ _ (Prod.ext hboth rfl)
      (.keep _ _ _ (.drop _ _ _ hrejected .nil)) (by decide +kernel),
    hinsert (encryptLine ++ "\n" ++ compressLine) compressLine _ _ _ (Prod.ext hone rfl)
      (.drop _ _ _ ⟨hrejected, halone⟩ (.keep _ _ _ .nil)) (by decide +kernel)⟩

end Session

end StoragePolicy
