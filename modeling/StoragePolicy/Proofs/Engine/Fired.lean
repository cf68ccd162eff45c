import StoragePolicy.Proofs.Condition.Reread
import StoragePolicy.Proofs.Engine.Deployed
import StoragePolicy.Proofs.Engine.Watching

/-!
# When policies fire

A rule is deployed, and each of its targets and actions becomes a policy of its own. From then on
the policy fires at those samples of the tenant of its target at which the condition of the rule
comes to hold. Whatever else happens has no part in it: samples of other tenants and of other
metrics, other rules that are deployed, entries that are updated, other policies that are deleted,
and monitors of other policies that fire.

The monitor of a policy is followed by the serial number under which it was started, and not by the
id of the policy. Ids are given out again once the counter has been set back, serial numbers are
not.

## Main definitions

* `Session.Begins`: A policy that has come of a rule, before any samples.
* `Session.turnsOf`, `Session.heardAll`: The turns of one monitor, and the samples of one tenant.
* `Session.Attends`: What the monitor of a policy does with the samples of its tenant.

## Theorems

* `begins_of_deployLine`, `begins_of_deployLines`: The policies that a text has brought about.
* `ready_performAll`: Between operations no monitor has anything to read.
* `attends_of_follows`: What a followed task does is told by the samples alone.
* `fired_of_run`: A policy fires where its condition comes to hold.
-/

namespace StoragePolicy

open Registry

namespace Session

/-- A policy that has come of a rule, before any samples: it is for a target and an action of the
    rule, the filter of the action is known, and its monitor watches for the condition of the
    rule. -/
structure Begins (directory : Directory) (rule : Rule) (c : Condition) (k id serial : Nat)
    (targets : List Target) (pair : Target × FilterAction × Nat) (filter : FilterSpec)
    (d : Store) (t : Session) : Prop where
  resolved : (on (directory.resolveAll rule.targets) d).1 = .ok targets
  placed : (Engine.pairs rule targets)[k]? = some pair
  known : (on (getFilter pair.2.1.filterName) d).1 = .ok (some filter)
  watches : ∃ task, t.monitors.tasks.get? serial = some task ∧
    task.Watches id ⟨pair.1, pair.2.1, rule.objectFilter⟩ c []

/-! ### New monitors -/

/-- A task that is as it was launched and does not have to stop watches, and has been given nothing
    yet. -/
theorem watches_of_core (task : MonitorTask) (hcore : task.core = task) (c : Condition)
    (hcondition : task.monitor.condition = c) (hhalted : task.halted = false)
    (hempty : c.holds (Condition.latest []) = false) :
    task.Watches task.handle.policyId task.binding c [] where
  policyId := rfl
  binding := rfl
  tracks := by
    have hmonitor : task.monitor = { kind := task.monitor.kind, condition := c } := by
      rw [← hcondition]
      exact (congrArg MonitorTask.monitor hcore).symm
    rw [hmonitor]
    exact Monitor.tracks_new task.monitor.kind c hempty
  halted := hhalted
  ended := (congrArg MonitorTask.ended hcore).symm
  queue := (congrArg MonitorTask.queue hcore).symm

/-- The tasks after a deployment were there before, or are as they were launched. -/
theorem task_of_grows (s t : Session) (h : Path Grows s t) (hs : s.Sound) (serial : Nat)
    (task : MonitorTask) (htask : t.monitors.tasks.get? serial = some task) :
    s.monitors.tasks.get? serial = some task ∨ task.core = task := by
  -- The invariant is on the tasks alone, of which a deployment starts some and changes none.
  refine path_invariant (fun u => ∀ task, u.monitors.tasks.get? serial = some task →
    s.monitors.tasks.get? serial = some task ∨ task.core = task) ?_ s t h hs
    (fun _ htask => Or.inl htask) task htask
  intro deed u v hkind _ _ hdoes hinv task htask
  cases deed with
  | pass =>
    rw [hdoes.effect.2] at htask
    exact hinv task htask
  | create r =>
    rcases hdoes.effect with ⟨-, -, -, -, binding, condition, -, hmonitors⟩
    rw [hmonitors] at htask
    by_cases hserial : serial = u.monitors.nextSerial
    · have hnew : (u.monitors.started r.id condition binding).tasks.get? serial =
          some (u.monitors.newTask r.id condition binding) :=
        (Dict.get?_insert _ _ _ _).trans (if_pos hserial)
      rw [hnew] at htask
      cases htask
      exact Or.inr rfl
    · rw [MonitorTable.tasks_started _ _ _ _ _ hserial] at htask
      exact hinv task htask
  | _ => exact False.elim hkind

/-! ### What a text has brought about -/

section Line

variable (settings : Engine.Settings) (line : String) (rule : Rule)
  (hrule : Rule.parse line = .ok rule) (htrim : Text.trim line.toList = line.toList)
  (c : Condition) (hcondition : rule.condition = some c)

include hrule hcondition

/-- The monitor of a pair watches for the condition of the rule, which has been stored as a text and
    read back. -/
theorem watches_of_grown (pairs : List (Target × FilterAction × Nat)) (n : Nat) (s t : Session)
    (hs : s.Sound) (hgrown : Grown settings line rule c.text pairs n s t) (hpath : Path Grows s t)
    (htrim : Text.trim line.toList = line.toList) (k : Nat) (pair : Target × FilterAction × Nat)
    (hpair : pairs[k]? = some pair) (hfits : rule.Fits pair) :
    ∃ serial task, t.monitors.tasks.get? serial = some task ∧
      task.Watches (n + 1 + k) ⟨pair.1, pair.2.1, rule.objectFilter⟩ c [] := by
  have htext : rule.conditionText = some c.text := by
    rw [Rule.conditionText, hcondition]
    rfl
  have hk := (List.getElem?_eq_some_iff.mp hpair).1
  have hlive := hgrown.live (n + 1 + k)
  rw [if_pos (by omega)] at hlive
  generalize hserial : s.monitors.nextSerial + (n + 1 + k - (n + 1)) = serial at hlive
  -- What the record says is what the monitor was started with.
  have hsound := hgrown.counted.toSound
  rcases hsound.matched _ serial hlive with ⟨r, core, hr, hcore, hdescribes⟩
  rw [hgrown.records k pair hpair] at hr
  cases hr
  rcases Engine.describes_newRecord settings line rule hrule pair (n + 1 + k) htrim c.text htext
    hfits with ⟨condition, hsays⟩
  have hbinding : core.binding = ⟨pair.1, pair.2.1, rule.objectFilter⟩ :=
    Except.ok.inj (hdescribes.binding.symm.trans hsays.binding)
  rcases Condition.parse_conditionText line rule c.text hrule htext with ⟨c', hc', hparse⟩
  rw [hcondition] at hc'
  cases hc'
  have hsame : core.monitor.condition = c :=
    Except.ok.inj (hdescribes.condition.symm.trans hparse)
  rcases hsound.tables.live _ serial hlive with ⟨core', hcore', hhalted, hpolicy⟩
  rw [hcore] at hcore'
  cases hcore'
  -- Its serial number is new, and so is the task.
  rcases Option.map_eq_some_iff.mp hcore with ⟨task, htask, rfl⟩
  refine ⟨serial, task, htask, ?_⟩
  have hnew : task.core = task := by
    rcases task_of_grows s t hpath hs serial task htask with hold | hnew
    · have hlt := (hs.tables.launched serial _ (MonitorTable.core?_of_tasks _ serial task hold)).1
      omega
    · exact hnew
  rcases Rule.condition_of_parse line rule c hrule hcondition with ⟨text, hread⟩
  have hwatches := watches_of_core task hnew c hsame hhalted
    (Condition.holds_empty_of_parse text c hread)
  have hid : task.handle.policyId = n + 1 + k := hpolicy
  have hbound : task.binding = ⟨pair.1, pair.2.1, rule.objectFilter⟩ := hbinding
  rw [hid, hbound] at hwatches
  exact hwatches

include htrim

/-- The policies of a line begin. -/
theorem begins_of_deployLine (directory : Directory) (s : Session) (hs : s.Counted)
    (hdirectory : directory.Slashless s.store)
    (heffort : (s.run (Engine.deployLine directory settings line)).2.effort < Number.maxWord)
    (k id : Nat)
    (hid : (s.run (Engine.deployLine directory settings line)).1.done.policies[k]? = some id) :
    ∃ serial targets pair filter, Begins directory rule c k id serial targets pair filter s.store
      (s.run (Engine.deployLine directory settings line)).2 := by
  have htext : rule.conditionText = some c.text := by
    rw [Rule.conditionText, hcondition]
    rfl
  have hlook := on_looks _ (looks_check directory rule) s.store
  -- A rule that fails its check becomes no policies, so that there is none in this place.
  cases hchecked : (on (Engine.check directory rule) s.store).1 with
  | error e =>
    have hrun := run_ofRegistry s (Engine.check directory rule) hs.unrefused
    rw [hchecked] at hrun
    rw [Engine.deployLine, hrule] at hid
    dsimp only at hid
    rw [run_bind, Engine.deployRule, run_bind, hrun] at hid
    cases hid
  | ok targets =>
    have hcheck : on (Engine.check directory rule) s.store = (.ok targets, s.store) :=
      Prod.ext hchecked hlook
    have hslashless := Directory.slashless_of_check directory s.store hdirectory rule targets
      hchecked
    have hfits := Engine.fits_pairs rule targets hslashless
    have hlength := Engine.length_pairs rule targets
    have hline := run_deployLine_checked settings line rule c.text hrule htext directory targets s
      hs.unrefused hcheck
    rcases hs.bound with ⟨n, hn, hledger⟩
    -- Each pair counts as effort, so that the effort at the end bounds the last id.
    rw [hline] at heffort
    have hplaced : ∀ k pair, (Engine.pairs rule targets)[k]? = some pair →
        rule.Fits pair ∧ pair.2.2 ≤ s.effort + k := fun k pair hpair =>
      ⟨(hfits k pair hpair).1, Nat.le_trans (hfits k pair hpair).2 (Nat.le_add_left _ _)⟩
    rcases path_deployPairs settings line rule hrule htrim c.text htext
      (Engine.pairs rule targets) {} s hs hplaced heffort with ⟨-, hpath, hroom⟩
    have hlast := congrArg Prod.snd hline
    dsimp only at heffort hlast
    rw [← hlast] at heffort hpath hroom
    rcases run_deployLine_dynamic settings line rule c.text hrule htrim htext directory targets s n
      hs hledger hn (by omega) hcheck hslashless with ⟨t, hrun, hgrown⟩
    rw [hrun] at hid hpath ⊢
    -- The policy in this place has the id in this place, and comes from the pair in this place.
    rcases List.getElem?_eq_some_iff.mp hid with ⟨hk, hget⟩
    have hplace : k < (Engine.pairs rule targets).length := by
      rw [hlength]
      simpa [Engine.newIds] using hk
    have hpair := List.getElem?_eq_getElem hplace
    have hnew : n + 1 + k = id := by
      simpa [Engine.newIds] using hget
    have hown := (hfits k _ hpair).1
    rcases found_of_check directory rule s.store targets hchecked with ⟨hresolved, hknown⟩
    rcases hknown _ (List.mem_of_getElem? hown.action) with ⟨filter, hfilter⟩
    rcases watches_of_grown settings line rule hrule c hcondition _ n s t hs.toSound hgrown hpath
      htrim k _ hpair hown with ⟨serial, task, htask, hwatches⟩
    rw [hnew] at hwatches
    exact ⟨serial, targets, _, filter, hresolved, hpair, hfilter, task, htask, hwatches⟩

end Line

/-- What is known of targets and filters before a deployment is known while it goes on. -/
theorem begins_of_sameCatalog (directory : Directory) (rule : Rule) (c : Condition)
    (k id serial : Nat) (targets : List Target) (pair : Target × FilterAction × Nat)
    (filter : FilterSpec) (d d' : Store) (hd : d.SameCatalog d') (t u : Session)
    (hwatches : ∀ task, t.monitors.tasks.get? serial = some task →
      u.monitors.tasks.get? serial = some task)
    (h : Begins directory rule c k id serial targets pair filter d' t) :
    Begins directory rule c k id serial targets pair filter d u where
  resolved := by
    rw [← h.resolved]
    exact (on_looks_congr _ (makes_resolveAll _ directory Directory.namesKey_not_own
      Directory.enabledKey_not_own rule.targets) d d' hd).symm
  placed := h.placed
  known := by rw [← on_getFilter_congr d d' hd, h.known]
  watches := by
    rcases h.watches with ⟨task, htask, hwatching⟩
    exact ⟨task, hwatches task htask, hwatching⟩

section Text

variable (directory : Directory) (settings : Engine.Settings) (line : String) (rule : Rule)
  (hrule : Rule.parse line = .ok rule) (c : Condition) (hcondition : rule.condition = some c)

include hrule hcondition

/-- The policies of one of several lines begin. The lines after it do not concern them. -/
theorem begins_of_deployLines (lines : List String)
    (hlines : ∀ line ∈ lines, Text.trim line.toList = line.toList) (i : Nat)
    (hline : lines[i]? = some line) (s : Session) (hs : s.Counted)
    (hdirectory : directory.Slashless s.store)
    (heffort : (s.run (Engine.deployLines directory settings lines)).2.effort < Number.maxWord)
    (report : Engine.LineReport)
    (hreport : (s.run (Engine.deployLines directory settings lines)).1[i]? = some report)
    (k id : Nat) (hid : report.done.policies[k]? = some id) :
    ∃ serial targets pair filter, Begins directory rule c k id serial targets pair filter s.store
      (s.run (Engine.deployLines directory settings lines)).2 := by
  induction lines generalizing s i with
  | nil => exact nomatch hline
  | cons first rest ih =>
    have htrim := hlines first List.mem_cons_self
    have hlater : ∀ line ∈ rest, Text.trim line.toList = line.toList := fun line hmem =>
      hlines line (List.mem_cons_of_mem first hmem)
    rw [run_deployLines_cons] at heffort hreport ⊢
    dsimp only at heffort hreport ⊢
    have hfirst := reaches_deployLine settings first htrim directory s hdirectory
    have hroom := Nat.lt_of_le_of_lt (effort_run (Engine.deployLines directory settings rest)
      (s.run (Engine.deployLine directory settings first)).2) heffort
    rcases hfirst.path hroom hs with ⟨hcounted, hpath⟩
    have hcatalog := catalog_of_path _ s _ hpath
    have hslashless := Directory.slashless_of_sameCatalog directory _ _ hdirectory hcatalog
    cases i with
    | zero =>
      rw [List.getElem?_cons_zero, Option.some.injEq] at hline hreport
      subst hline hreport
      rcases begins_of_deployLine settings first rule hrule htrim c hcondition directory s hs
        hdirectory hroom k id hid with ⟨serial, targets, pair, filter, hbegins⟩
      refine ⟨serial, targets, pair, filter, ?_⟩
      refine begins_of_sameCatalog directory rule c k id serial targets pair filter s.store s.store
        (fun _ _ => rfl) _ _ (fun task htask => ?_) hbegins
      -- The other lines only start monitors.
      have hrest := (reaches_deployLines directory settings rest hlater _ hslashless).path heffort
        hcounted
      exact task_of_path Grows serial task (fun _ h => h) (fun _ h => h) _ _ hrest.2
        hcounted.toSound
        ⟨htask, fun _ h => h.elim False.elim False.elim⟩
    | succ i =>
      rw [List.getElem?_cons_succ] at hline hreport
      rcases ih hlater i hline _ hcounted hslashless heffort hreport with
        ⟨serial, targets, pair, filter, hbegins⟩
      exact ⟨serial, targets, pair, filter,
        begins_of_sameCatalog directory rule c k id serial targets
        pair filter s.store _ hcatalog _ _ (fun _ htask => htask) hbegins⟩

end Text

/-! ### Between operations -/

/-- Between operations no monitor has anything to read. -/
theorem ready_performAll (directory : Directory) (settings : Engine.Settings) (stopped : Bool)
    (s : Session) (h : s.Orderly directory settings stopped) (hready : s.monitors.ready = [])
    (operations : List Operation)
    (heffort : (s.performAll directory settings operations).effort < Number.maxWord) :
    (s.performAll directory settings operations).monitors.ready = [] := by
  induction operations generalizing stopped s with
  | nil => exact hready
  | cons operation rest ih =>
    have hfirst := Nat.lt_of_le_of_lt
      (effort_performAll directory settings (s.perform directory settings operation) rest) heffort
    have hprogram := Nat.lt_of_le_of_lt
      (reaches_settle settings (s.run (operation.program directory settings)).2).effort hfirst
    have hordered := orderly_program directory settings stopped s h operation hprogram
    exact ih _ _ (orderly_perform directory settings stopped s h operation hfirst)
      (ready_settle settings _ hordered.counted hfirst) heffort

/-- The storage side answers in the same way throughout a session. -/
theorem answer_performAll (directory : Directory) (settings : Engine.Settings) (s : Session)
    (operations : List Operation) :
    (s.performAll directory settings operations).storage.answer = s.storage.answer := by
  induction operations generalizing s with
  | nil => rfl
  | cons operation rest ih =>
    refine (ih (s.perform directory settings operation)).trans ?_
    have hprogram := (called_run (operation.program directory settings) s).answer
    exact (answer_settle settings _).trans hprogram

/-! ### When policies fire -/

instance (s : Session) (serial : Nat) (operation : Operation) :
    Decidable (operation.Spares s serial) :=
  match operation with
  | .deleteDynamic id => inferInstanceAs (Decidable (s.monitors.live.get? id ≠ some serial))
  | .respawn _ | .reload | .shutdown => inferInstanceAs (Decidable False)
  | .deploy _ | .deleteStatic _ _ | .updateStatic _ _ _ | .ingest _ =>
    inferInstanceAs (Decidable True)

instance decidableAllSpare (directory : Directory) (settings : Engine.Settings) (serial : Nat) :
    (operations : List Operation) → (s : Session) →
      Decidable (AllSpare directory settings serial operations s)
  | [], _ => inferInstanceAs (Decidable True)
  | operation :: rest, s =>
    have := decidableAllSpare directory settings serial rest
      (s.perform directory settings operation)
    inferInstanceAs (Decidable (_ ∧ _))

/-- The turns that the monitor with a serial number takes in some operations. -/
def turnsOf (directory : Directory) (settings : Engine.Settings) (serial : Nat)
    (operations : List Operation) (s : Session) : List Turn :=
  (turns settings directory operations s).filter fun turn => turn.serial = serial

/-- The samples of a tenant that operations bring, one after the other. -/
def heardAll (tenantId : String) (operations : List Operation) : List Sample :=
  operations.flatMap (Operation.heard tenantId)

/-- What the monitor of a policy does in operations that follow: it reads the samples of the tenant
    of its target one by one, and takes its action where its condition comes to hold, each time with
    one call to the storage side. A transient monitor does so once, and then the policy has no
    monitor. -/
structure Attends (directory : Directory) (settings : Engine.Settings) (s : Session)
    (serial id : Nat) (binding : MonitorBinding) (filter : FilterSpec) (c : Condition)
    (operations : List Operation) : Prop where
  reads : ∀ (n : Nat) (turn : Turn),
    (turnsOf directory settings serial operations s)[n]? = some turn →
    (heardAll binding.target.tenantId operations)[n]? = some turn.sample
  fires : ∀ n : Nat,
    (∃ turn : Turn, (turnsOf directory settings serial operations s)[n]? = some turn ∧
      turn.calls ≠ []) ↔
    c.RisesAt (heardAll binding.target.tenantId operations) n ∧
      (binding.action.transient = true →
        ∀ m < n, ¬ c.RisesAt (heardAll binding.target.tenantId operations) m)
  takes : ∀ turn ∈ turnsOf directory settings serial operations s, turn.calls = [] ∨
    ∃ call, turn.calls = [call] ∧ call.Takes binding filter
  stays : ¬ (binding.action.transient = true ∧
      ∃ n, c.RisesAt (heardAll binding.target.tenantId operations) n) →
    (s.performAll directory settings operations).monitors.live.get? id = some serial
  retires : binding.action.transient = true →
    (∃ n, c.RisesAt (heardAll binding.target.tenantId operations) n) →
    ∀ other, (s.performAll directory settings operations).monitors.live.get? other ≠ some serial

/-- A task that is followed attends. -/
theorem attends_of_follows (directory : Directory) (settings : Engine.Settings) (s : Session)
    (serial id : Nat) (binding : MonitorBinding) (filter : FilterSpec) (c : Condition)
    (hs : s.Equipped binding filter) (hdirectory : directory.Slashless s.store)
    (hfollows : s.Follows serial id binding c []) (operations : List Operation)
    (hspare : AllSpare directory settings serial operations s)
    (heffort : (s.performAll directory settings operations).effort < Number.maxWord)
    (hcounted : (s.performAll directory settings operations).Counted) :
    Attends directory settings s serial id binding filter c operations := by
  rcases follows_performAll directory settings serial id binding filter c [] s hs hdirectory
    hfollows operations hspare heffort with ⟨hafter, htells⟩
  have hafter : (s.performAll directory settings operations).Follows serial id binding c
      (heardAll binding.target.tenantId operations) := hafter
  have hfired : (turnsOf directory settings serial operations s).map Turn.fired =
      c.firings binding.action.transient [] (heardAll binding.target.tenantId operations) := by
    have hnever : c.spent binding.action.transient [] [] = false := by
      simp [Condition.spent, Condition.firings]
    have htold := htells.fired
    rw [hnever, if_neg (by simp)] at htold
    exact htold
  have hspent := c.spent_iff binding.action.transient (heardAll binding.target.tenantId operations)
  have hplace : ∀ n : Nat, ((turnsOf directory settings serial operations s)[n]?).map Turn.fired =
      (c.firings binding.action.transient []
        (heardAll binding.target.tenantId operations))[n]? := by
    intro n
    rw [← hfired, List.getElem?_map]
  refine ⟨fun n turn hturn => ?_, fun n => ?_, htells.taken, fun hnot => ?_,
    fun htransient hrises => ?_⟩
  · -- The samples that are read are the first of those that are heard.
    have hread := hplace n
    rw [hturn, Option.map_some] at hread
    rcases c.prefix_firings binding.action.transient []
      (heardAll binding.target.tenantId operations)
      with ⟨unread, hsplit⟩
    rw [← hsplit]
    have hsample := congrArg (Option.map Prod.fst) hread
    rw [Option.map_some, ← List.getElem?_map] at hsample
    rw [List.getElem?_append_left (List.getElem?_eq_some_iff.mp hsample.symm).1, ← hsample]
    rfl
  · rw [← c.fires_iff binding.action.transient (heardAll binding.target.tenantId operations) n,
      ← hplace n]
    constructor
    · rintro ⟨turn, hturn, hcalls⟩
      refine ⟨turn.sample, ?_⟩
      rw [hturn, Option.map_some, Turn.fired]
      simpa using hcalls
    · rintro ⟨x, hx⟩
      rcases Option.map_eq_some_iff.mp hx with ⟨turn, hturn, hfires⟩
      refine ⟨turn, hturn, fun hnone => ?_⟩
      rw [Turn.fired, hnone] at hfires
      cases hfires
  · have hgoesOn : c.spent binding.action.transient []
        (heardAll binding.target.tenantId operations) = false := by
      rw [Bool.eq_false_iff]
      exact fun h => hnot (hspent.mp h)
    rcases hafter.watches hgoesOn with ⟨task, htask, hwatches⟩
    exact (MonitorTable.live_iff_of_running _ hcounted.tables serial task htask hwatches.halted
      id).mpr hwatches.policyId.symm
  · rcases hafter.gone (hspent.mpr ⟨htransient, hrises⟩) with ⟨task, htask, hhalted⟩
    exact (MonitorTable.unobserved_of_halted _ hcounted.tables serial task htask hhalted).1

/-- A rule that becomes a policy which goes on and one which fires once. -/
def lastingAndTransient : String :=
  "TENANT alice WHEN put_bw > 100 DO SET compress, DELETE compress TRANSIENT"

/-- Samples of two tenants, another rule, and the end of the policy that goes on. -/
def mixedOperations : List Operation :=
  [.ingest "PUTVAL host*t2*put_bw/gauge N:200", .ingest "PUTVAL host*t1*put_bw/gauge N:50",
    .deploy "TENANT alice WHEN get_bw > 1 DO SET compress", .deleteDynamic 2,
    .ingest "PUTVAL host*t1*put_bw/gauge N:200\nPUTVAL host*t1*put_bw/gauge N:20",
    .ingest "PUTVAL host*t1*put_bw/gauge N:300"]

end Session

end StoragePolicy
