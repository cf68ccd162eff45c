import StoragePolicy.Engine.Loop
import StoragePolicy.Proofs.Engine.Elsewhere
import StoragePolicy.Proofs.Engine.Uninstalled

/-!
# The end of an action after its monitor has been removed

A monitor may be removed while its task takes an action. The task brings the action to its end and
goes on to what follows from it. By then the record may be gone as well, and another policy may have
been deployed under the same id. Since what follows is addressed by the id, it may hit that policy.

The task of a transient monitor looks at the flag before it retires its policy, so it does nothing
once its monitor has been removed. The task of a persistent monitor does not look: if the settings
ask for it, it marks whatever record it finds under the id. Neither looks again once it has begun
with what follows.

## Main definitions

* `Engine.Call.Aside`: Calls that change neither a monitor nor a record.
* `Scene`: A task that takes an action while others work.
* `Scene.step`, `Scene.run`: One step, and a schedule of steps.
* `Scene.Underway`: A task on its way to the end of an action.
* `Session.SamePolicies`, `Session.Marked`: What a step of the task may do to the policies.

## Theorems

* `aside_dispatch`: An action changes neither a monitor nor a record.
* `winding_own`, `elsewhere_own`, `spared_own`: What a step of the task leads to and what it does.
* `spared_of_run`: The task leaves all policies of other ids alone, and if its monitor has been
  removed all policies, but for the mark.
* `hitsSecond_overtaken`: The mark, and one that comes after the look at the flag, may hit a policy
  that was deployed after the removal.
-/

namespace StoragePolicy

open Registry

namespace Engine

/-! ### The calls of an action -/

/-- Calls that change neither a monitor nor a record. -/
def Call.Aside : Call → Prop
  | .store c => ∀ name, PolicyRecord.keyStem ++ name ∉ c.changed
  | .install _ _ _ | .uninstall _ _ | .isLive _ | .isHalted _ => True
  | _ => False

/-- The call that marks the record of a policy as no longer alive. -/
def marking (id : Nat) : Call :=
  .store (.updateField (PolicyRecord.storeKey id) "alive" (PolicyRecord.flagText false))

theorem about_aside (id : Nat) (c : Call) (hc : c.Aside) : c.About id [] := by
  cases c with
  | store c => exact fun name _ => hc name
  | install target filter entry => trivial
  | uninstall target filter => trivial
  | isLive other => trivial
  | isHalted serial => trivial
  | _ => exact absurd hc not_false

theorem about_marking (id : Nat) : (marking id).About id [] := (about_setAlive id false).1

theorem aside_idle {α : Type} (p : Registry α) (hp : p.run.Makes Store.Call.Idle) :
    (ofRegistry p).run.Makes Call.Aside :=
  makes_ofRegistry Call.Aside p (Program.makes_mono _ _ p.run hp recordKey_not_mem_idle)

/-- An action works on pipelines, and not on records. -/
theorem aside_dispatch (target : Target) (action : FilterAction)
    (objectFilter : Option ObjectFilter) :
    (dispatch target action objectFilter).run.Makes Call.Aside := by
  refine makes_then Call.Aside _ _ (aside_idle _ (idle_requireFilter _)) fun filter => ?_
  cases action.verb with
  | set =>
    refine makes_then Call.Aside _ _ ?_ fun id => ?_
    · refine makes_ofRegistry Call.Aside nextId (makes_ask _ _ fun name => ?_)
      simp [Store.Call.changed, recordKey_ne_counterKey, recordKey_ne_reservationKey]
    · refine makes_then Call.Aside _ _ ?_ fun _ => ?_
      · refine makes_ofRegistry Call.Aside (putStatic target.id id _) (makes_ask _ _ fun name => ?_)
        simp [Store.Call.changed, Mutation.key, release, recordKey_ne_pipelineKey,
          recordKey_ne_reservationKey]
      · refine makes_then Call.Aside _ _ ?_ fun _ => makes_done _ _
        exact ⟨trivial, fun _ => trivial⟩
  | delete =>
    refine makes_then Call.Aside _ _ ⟨trivial, fun _ => trivial⟩ fun _ => ?_
    refine makes_then Call.Aside _ _ (aside_idle _ (idle_deleteMatching _ _)) fun _ => ?_
    exact makes_done _ _

/-- What follows the action of a persistent policy is the mark, if the settings ask for it. -/
theorem makes_afterPersistentFire (settings : Settings) (id : Nat) :
    (afterPersistentFire settings id).Makes fun c =>
      settings.aliveAfterFire = false ∧ c = marking id := by
  rw [afterPersistentFire]
  cases settings.aliveAfterFire with
  | true => exact makes_done _ _
  | false => exact makes_discard_program _ _ ⟨⟨rfl, rfl⟩, fun _ => trivial⟩

end Engine

/-! ### What calls do to the policies -/

namespace Session

/-- The policies of two sessions are the same: their monitors and their records. -/
structure SamePolicies (s t : Session) : Prop where
  monitors : t.monitors = s.monitors
  records : s.store.SameRecords t.store

/-- A record that there is under an id has been marked as no longer alive, and nothing else has been
    done to the policies. -/
structure Marked (s t : Session) (id : Nat) : Prop where
  monitors : t.monitors = s.monitors
  record : ∃ fields, s.store.hashAt (PolicyRecord.storeKey id) = .ok fields ∧
    fields.contains "alive" = true ∧
    t.store = s.store.putHash (PolicyRecord.storeKey id)
      (fields.insert "alive" (PolicyRecord.flagText false))

theorem samePolicies_refl (s : Session) : SamePolicies s s := ⟨rfl, Store.sameRecords_refl _⟩

theorem samePolicies_exec (c : Engine.Call) (s : Session) (hc : c.Aside) :
    SamePolicies s (exec c s).2 := by
  cases c with
  | store c =>
    exact ⟨rfl, fun name => get?_exec_store c s _ (hc name)⟩
  | install target filter entry => exact ⟨rfl, Store.sameRecords_refl _⟩
  | uninstall target filter => exact ⟨rfl, Store.sameRecords_refl _⟩
  | isLive id => exact samePolicies_refl s
  | isHalted serial => exact samePolicies_refl s
  | _ => exact absurd hc not_false

/-- The mark hits a record, or there is none that it could hit. -/
theorem same_or_marked_exec (id : Nat) (s : Session) :
    SamePolicies s (exec (Engine.marking id) s).2 ∨ Marked s (exec (Engine.marking id) s).2 id := by
  simp only [exec, Engine.marking, Backend.exec]
  cases s.backend.refusal _ with
  | some e => exact Or.inl (samePolicies_refl s)
  | none =>
    simp only [Store.exec, Store.updateField]
    cases hfields : s.store.hashAt (PolicyRecord.storeKey id) with
    | error e =>
      have hdata : s.backend.data.hashAt (PolicyRecord.storeKey id) = .error e := hfields
      rw [hdata]
      exact Or.inl (samePolicies_refl s)
    | ok fields =>
      have hdata : s.backend.data.hashAt (PolicyRecord.storeKey id) = .ok fields := hfields
      rw [hdata]
      dsimp only
      by_cases halive : fields.contains "alive" = true
      · rw [if_pos halive]
        exact Or.inr ⟨rfl, fields, hfields, halive, rfl⟩
      · rw [if_neg halive]
        exact Or.inl (samePolicies_refl s)

/-- Makes the next call of a program, if it has one. -/
def advance {α : Type} (s : Session) :
    Program Engine.interface α → Program Engine.interface α × Session
  | .done a => (.done a, s)
  | .call c next => (next (exec c s).1, (exec c s).2)

end Session

/-! ### A task that takes an action while others work -/

open Engine (Phase)
open Session (tenantAlice deleteCompress withTwoFilters)

/-- A session in which a task takes an action while others work, all at some point of their
    programs. -/
structure Scene where
  session : Session
  phase : Phase
  others : List (Program Engine.interface Unit)

namespace Scene

/-- Whose step is next. -/
inductive Move where
  | own
  | other (i : Nat)

/-- A task whose monitor has fired, and the programs of others. -/
def start (s : Session) (m : Monitor) (others : List (Program Engine.interface Unit)) : Scene :=
  { session := s, phase := .fired m, others }

section Step

variable (settings : Engine.Settings) (handle : MonitorHandle) (binding : MonitorBinding)

/-- The task takes its next step. It takes no further sample. -/
def own (x : Scene) : Scene :=
  match x.phase.step settings handle binding with
  | .move _ next => { x with phase := next }
  | .ask c next =>
    { x with session := (Session.exec c x.session).2, phase := next (Session.exec c x.session).1 }
  | .take _ | .none => x

/-- One of the others makes its next call. -/
def other (i : Nat) (x : Scene) : Scene :=
  match x.others[i]? with
  | none => x
  | some p =>
    { x with session := (x.session.advance p).2, others := x.others.set i (x.session.advance p).1 }

/-- One step. -/
def step (x : Scene) : Move → Scene
  | .own => x.own settings handle binding
  | .other i => x.other i

/-- A schedule of steps. -/
def run (x : Scene) (schedule : List Move) : Scene :=
  schedule.foldl (step settings handle binding) x

end Step

/-- The monitor of the task was told to stop. -/
def Stopped (handle : MonitorHandle) (x : Scene) : Prop :=
  x.session.monitors.isHalted handle.serial = true

/-- The task has looked at the flag for the last time, has found it not set, and is about to retire
    its policy or does so. -/
def Resigned (x : Scene) : Prop :=
  match x.phase with
  | .resigned _ | .retiring _ _ => True
  | _ => False

instance (handle : MonitorHandle) (x : Scene) : Decidable (x.Stopped handle) :=
  inferInstanceAs (Decidable (_ = true))

instance (x : Scene) : Decidable x.Resigned :=
  match h : x.phase with
  | .resigned _ | .retiring _ _ => isTrue (by rw [Resigned, h]; trivial)
  | .waiting _ | .received _ _ | .cleared _ _ | .fired _ | .acting _ _ | .acted _ _ | .spent _
  | .noting _ _ | .leaving _ | .ended _ => isFalse (by rw [Resigned, h]; exact not_false)

/-- How far a task can have come that has not taken any further sample, and what it has still to do,
    given a session in which the tasks are known that it is told of while it retires its policy. -/
def Winding (settings : Engine.Settings) (handle : MonitorHandle) (kind : MonitorKind)
    (s : Session) : Phase → Prop
  | .received _ _ | .cleared _ _ => False
  | .fired m | .acted m _ => m.kind = kind
  | .acting m p => m.kind = kind ∧ p.Makes Engine.Call.Aside
  | .retiring _ p => ∃ known, Session.Owns handle.policyId known s ∧
      Engine.Heeds handle.policyId p known
  | .noting _ p => kind = .persistent ∧ p.Makes fun c =>
      settings.aliveAfterFire = false ∧ c = Engine.marking handle.policyId
  | .waiting _ | .spent _ | .resigned _ | .leaving _ | .ended _ => True

/-- A task was launched and is on its way to the end of an action. -/
structure Underway (settings : Engine.Settings) (handle : MonitorHandle) (kind : MonitorKind)
    (x : Scene) : Prop where
  rooted : x.session.monitors.Rooted
  launched : handle.serial < x.session.monitors.nextSerial
  winding : Winding settings handle kind x.session x.phase

/-- A step that leaves all policies alone, but that the record of a persistent policy may be marked,
    if the settings ask for it. -/
def Spared (settings : Engine.Settings) (handle : MonitorHandle) (kind : MonitorKind)
    (x y : Scene) : Prop :=
  Session.SamePolicies x.session y.session ∨
    kind = .persistent ∧ settings.aliveAfterFire = false ∧
      Session.Marked x.session y.session handle.policyId

section Own

variable (settings : Engine.Settings) (handle : MonitorHandle) (binding : MonitorBinding)
  (kind : MonitorKind)

/-- The task stays on its way to its end. -/
theorem winding_own (x : Scene) (h : Underway settings handle kind x) :
    Winding settings handle kind (x.own settings handle binding).session
      (x.own settings handle binding).phase := by
  rcases x with ⟨s, phase, others⟩
  rcases h with ⟨hrooted, -, hwinding⟩
  cases phase with
  | waiting m => trivial
  | received m sample => exact absurd hwinding not_false
  | cleared m sample => exact absurd hwinding not_false
  | fired m => exact ⟨hwinding, Engine.aside_dispatch _ _ _⟩
  | acting m p =>
    cases p with
    | call c next => exact ⟨hwinding.1, hwinding.2.2 _⟩
    | done outcome => exact hwinding.1
  | acted m success =>
    have hkind : m.kind = kind := hwinding
    change Winding settings handle kind s (Phase.afterAction settings handle success
      (m.conclude success))
    rw [Monitor.conclude]
    cases success with
    | false => trivial
    | true =>
      cases hm : m.kind with
      | persistent => exact ⟨hkind ▸ hm, Engine.makes_afterPersistentFire _ _⟩
      | transient => trivial
  | spent m =>
    change Winding settings handle kind s (if s.monitors.isHalted handle.serial then
      Phase.leaving m else .resigned m)
    split <;> trivial
  | resigned m =>
    -- No task is known yet: the first call will tell of one.
    exact ⟨[], Session.owns_nil _ _, Engine.heeds_retire _ _⟩
  | retiring m p =>
    cases p with
    | call c next =>
      rcases hwinding with ⟨known, howns, habout, hnext⟩
      exact ⟨_, Session.owns_told c s hrooted _ known habout howns, hnext _⟩
    | done a => trivial
  | noting m p =>
    cases p with
    | call c next => exact ⟨hwinding.1, hwinding.2.2 _⟩
    | done a => trivial
  | leaving m => trivial
  | ended m => trivial

/-- A step of the task leaves all policies alone but the one that it is the task of, or another of
    the same id. -/
theorem elsewhere_own (x : Scene) (h : Underway settings handle kind x) :
    Session.Elsewhere handle.policyId x.session (x.own settings handle binding).session := by
  rcases x with ⟨s, phase, others⟩
  have hsame := Session.elsewhere_refl handle.policyId s
  have hmakes : ∀ c : Engine.Call, c.About handle.policyId [] →
      Session.Elsewhere handle.policyId s (Session.exec c s).2 := fun c hc =>
    Session.elsewhere_exec _ [] c s hc (Session.owns_nil _ s)
  have hwinding := h.winding
  cases phase with
  | acting m p =>
    cases p with
    | call c next => exact hmakes c (Engine.about_aside _ c hwinding.2.1)
    | done outcome => exact hsame
  | retiring m p =>
    cases p with
    | call c next =>
      -- One of these calls goes by a serial number.
      rcases hwinding with ⟨known, howns, habout, -⟩
      exact Session.elsewhere_exec _ known c s habout howns
    | done a => exact hsame
  | noting m p =>
    cases p with
    | call c next =>
      refine hmakes c ?_
      rw [hwinding.2.1.2]
      exact Engine.about_marking _
    | done a => exact hsame
  | _ => exact hsame

/-- A task that was told to stop before it looked at the flag does not retire its policy, and leaves
    all policies alone, but for the mark. -/
theorem spared_own (x : Scene) (h : Underway settings handle kind x)
    (hstopped : x.Stopped handle) (hresigned : ¬ x.Resigned) :
    ¬ (x.own settings handle binding).Resigned ∧
      Spared settings handle kind x (x.own settings handle binding) := by
  rcases x with ⟨s, phase, others⟩
  have hwinding := h.winding
  have hsame : ∀ next, Spared settings handle kind ⟨s, phase, others⟩ ⟨s, next, others⟩ :=
    fun _ => Or.inl (Session.samePolicies_refl s)
  cases phase with
  | waiting m => exact ⟨not_false, hsame _⟩
  | received m sample => exact absurd hwinding not_false
  | cleared m sample => exact absurd hwinding not_false
  | fired m => exact ⟨not_false, hsame _⟩
  | acting m p =>
    cases p with
    | call c next => exact ⟨not_false, Or.inl (Session.samePolicies_exec c s hwinding.2.1)⟩
    | done outcome => exact ⟨not_false, hsame _⟩
  | acted m success =>
    refine ⟨?_, hsame _⟩
    change ¬ Resigned ⟨s, Phase.afterAction settings handle success (m.conclude success), others⟩
    rcases m.conclude success with ⟨verdict, m'⟩
    cases verdict with
    | retire => exact not_false
    | goOn => cases success <;> exact not_false
  | spent m =>
    -- This is where the task looks at the flag.
    refine ⟨?_, hsame _⟩
    change ¬ Resigned ⟨s, if s.monitors.isHalted handle.serial then Phase.leaving m
      else .resigned m, others⟩
    have hflag : s.monitors.isHalted handle.serial = true := hstopped
    rw [if_pos hflag]
    exact not_false
  | resigned m => exact absurd trivial hresigned
  | retiring m p => exact absurd trivial hresigned
  | noting m p =>
    cases p with
    | call c next =>
      -- This call is made without a look at the flag.
      rcases hwinding with ⟨hkind, ⟨hsettings, rfl⟩, -⟩
      refine ⟨not_false, ?_⟩
      exact (Session.same_or_marked_exec handle.policyId s).imp id fun hmarked =>
        ⟨hkind, hsettings, hmarked⟩
    | done a => exact ⟨not_false, hsame _⟩
  | leaving m => exact ⟨not_false, hsame _⟩
  | ended m => exact ⟨not_false, hsame _⟩

/-- Every step of a task or of others is a call or leaves the session as it is. -/
theorem session_step (x : Scene) (move : Move) :
    (x.step settings handle binding move).session = x.session ∨
      ∃ c, (x.step settings handle binding move).session = (Session.exec c x.session).2 := by
  cases move with
  | own =>
    rw [step, own]
    cases x.phase.step settings handle binding with
    | ask c next => exact Or.inr ⟨c, rfl⟩
    | _ => exact Or.inl rfl
  | other i =>
    rw [step, other]
    cases x.others[i]? with
    | none => exact Or.inl rfl
    | some p =>
      cases p with
      | done a => exact Or.inl rfl
      | call c next => exact Or.inr ⟨c, rfl⟩

theorem phase_other (i : Nat) (x : Scene) : (x.other i).phase = x.phase := by
  rw [other]
  split <;> rfl

/-- What others call leaves the task on its way. -/
theorem winding_exec (c : Engine.Call) (s : Session) (hrooted : s.monitors.Rooted) (phase : Phase)
    (h : Winding settings handle kind s phase) :
    Winding settings handle kind (Session.exec c s).2 phase := by
  cases phase with
  | retiring m p =>
    rcases h with ⟨known, howns, hheeds⟩
    exact ⟨known, Session.owns_exec c s hrooted _ known howns, hheeds⟩
  | _ => exact h

theorem underway_step (x : Scene) (move : Move) (h : Underway settings handle kind x) :
    Underway settings handle kind (x.step settings handle binding move) := by
  -- A move of another changes the session but not the phase of this task.
  have hsession := session_step settings handle binding x move
  refine ⟨?_, ?_, ?_⟩
  · rcases hsession with heq | ⟨c, heq⟩
    · rw [heq]
      exact h.rooted
    · rw [heq]
      exact Session.rooted_exec c x.session h.rooted
  · rcases hsession with heq | ⟨c, heq⟩
    · rw [heq]
      exact h.launched
    · rw [heq]
      exact Nat.lt_of_lt_of_le h.launched (Session.nextSerial_exec_le c x.session)
  · cases move with
    | own => exact winding_own settings handle binding kind x h
    | other i =>
      rw [step, phase_other]
      rcases hsession with heq | ⟨c, heq⟩
      · rw [step] at heq
        rw [heq]
        exact h.winding
      · rw [step] at heq
        rw [heq]
        exact winding_exec settings handle kind c x.session h.rooted x.phase h.winding

theorem underway_run (x : Scene) (schedule : List Move) (h : Underway settings handle kind x) :
    Underway settings handle kind (x.run settings handle binding schedule) := by
  induction schedule generalizing x with
  | nil => exact h
  | cons move rest ih => exact ih _ (underway_step settings handle binding kind x move h)

theorem stopped_step (x : Scene) (move : Move) (h : Underway settings handle kind x)
    (hstopped : x.Stopped handle) : (x.step settings handle binding move).Stopped handle := by
  rw [Stopped]
  rcases session_step settings handle binding x move with heq | ⟨c, heq⟩
  · rw [heq]
    exact hstopped
  · rw [heq]
    exact Session.isHalted_exec c x.session handle.serial h.launched hstopped

/-- A task that was told to stop before it looked at the flag will not retire its policy. -/
theorem struck_run (x : Scene) (schedule : List Move) (h : Underway settings handle kind x)
    (hstopped : x.Stopped handle) (hresigned : ¬ x.Resigned) :
    (x.run settings handle binding schedule).Stopped handle ∧
      ¬ (x.run settings handle binding schedule).Resigned := by
  induction schedule generalizing x with
  | nil => exact ⟨hstopped, hresigned⟩
  | cons move rest ih =>
    refine ih _ (underway_step settings handle binding kind x move h)
      (stopped_step settings handle binding kind x move h hstopped) ?_
    cases move with
    | own => exact (spared_own settings handle binding kind x h hstopped hresigned).1
    | other i =>
      rw [step, Resigned, phase_other]
      exact hresigned

end Own

/-- A task takes an action while others do whatever they do, in any order of all their calls. At no
    time does a step of the task do anything to a policy of another id. And if its monitor is
    removed before the task has looked at the flag for the last time, then from there on no step of
    the task does anything to any policy, be it one that was there or one that has been deployed
    since, but for one thing: if the monitor is persistent and the settings ask for it, the record
    that is found under its id is marked as no longer alive. -/
theorem spared_of_run (settings : Engine.Settings) (handle : MonitorHandle)
    (binding : MonitorBinding) (s : Session) (m : Monitor)
    (others : List (Program Engine.interface Unit)) (hrooted : s.monitors.Rooted)
    (hserial : handle.serial < s.monitors.nextSerial) (before later : List Move) :
    let x := (start s m others).run settings handle binding before
    let y := x.run settings handle binding later
    let z := y.step settings handle binding .own
    Session.Elsewhere handle.policyId y.session z.session ∧
      (x.Stopped handle → ¬ x.Resigned → Spared settings handle m.kind y z) := by
  intro x y z
  have hstart : Underway settings handle m.kind (start s m others) := ⟨hrooted, hserial, rfl⟩
  have hx := underway_run settings handle binding m.kind _ before hstart
  have hy := underway_run settings handle binding m.kind x later hx
  refine ⟨elsewhere_own settings handle binding m.kind y hy, fun hstopped hresigned => ?_⟩
  rcases struck_run settings handle binding m.kind x later hx hstopped hresigned with
    ⟨hstoppedLater, hresignedLater⟩
  exact (spared_own settings handle binding m.kind y hy hstoppedLater hresignedLater).2

/-! ### A policy that gets the id of one that has been removed -/

/-- Deploys a policy of one action. -/
def deploying (text conditionText : String) (action : FilterAction) : Engine Engine.Deployment :=
  Engine.deployPairs {} text conditionText
    { targets := [⟨.tenant, "alice"⟩], actions := [action] } [(tenantAlice, action, 0)] {}

/-- The policy that will be removed deletes a filter. -/
def firstAction (kind : MonitorKind) : FilterAction :=
  { deleteCompress with transient := kind = .transient }

def firstText : MonitorKind → String
  | .persistent => "TENANT alice WHEN put_bw > 1 DO DELETE compress"
  | .transient => "TENANT alice WHEN put_bw > 1 DO DELETE compress TRANSIENT"

/-- That policy has been deployed. -/
def watched (kind : MonitorKind) : Session :=
  (withTwoFilters.run (deploying (firstText kind) "put_bw > 1" (firstAction kind)).run).2

/-- The monitor of that policy. -/
def watcher (kind : MonitorKind) : Monitor :=
  { kind, condition := .compare "put_bw" .greaterThan 1 }

def watcherHandle (kind : MonitorKind) : MonitorHandle :=
  { serial := 0, policyId := 1, kind, target := tenantAlice }

def watcherBinding (kind : MonitorKind) : MonitorBinding :=
  { target := tenantAlice, action := firstAction kind, objectFilter := none }

/-- The policy that is deployed next sets a filter. -/
def secondAction : FilterAction := { verb := .set, filterName := "encrypt" }

def secondText : String := "TENANT alice WHEN get_ops > 5 DO SET encrypt"

/-- The record of that policy, which gets the id of the first. -/
def secondRecord : PolicyRecord :=
  Engine.newRecord {} 1 secondText "get_ops > 5"
    { targets := [⟨.tenant, "alice"⟩], actions := [secondAction] } tenantAlice secondAction 0

/-- The settings ask for the mark. -/
def markingSettings : Engine.Settings := { aliveAfterFire := false }

/-- The task of the first policy takes its steps, with these settings. -/
def goOn (kind : MonitorKind) (x : Scene) (schedule : List Move) : Scene :=
  x.run markingSettings (watcherHandle kind) (watcherBinding kind) schedule

/-- One removes the first policy, another deploys the second. -/
def overtakers : List (Program Engine.interface Unit) :=
  [discard (Engine.remove 1).run, discard (deploying secondText "get_ops > 5" secondAction).run]

/-- They do so one after the other, between two steps of the task. -/
def overtaking (first last : Nat) : List Move :=
  List.replicate first .own ++ List.replicate 6 (.other 0) ++ List.replicate 3 (.other 1) ++
    List.replicate last .own

/-- The second policy has been deployed, and the task has had some more steps. -/
def overtaken (kind : MonitorKind) (first last : Nat) : Scene :=
  (start (watched kind) (watcher kind) overtakers).goOn kind (overtaking first last)

theorem rooted_watched (kind : MonitorKind) : (watched kind).monitors.Rooted := by
  rw [watched]
  apply Session.rooted_run
  exact MonitorTable.rooted_of_consistent {} MonitorTable.consistent_empty

/-- Once a transient monitor has been removed in the midst of its action, its task leaves all
    policies alone, though the second one has its id. -/
theorem spared_of_run_transient :
    (watched .transient).monitors.Rooted ∧
      (watcherHandle .transient).serial < (watched .transient).monitors.nextSerial ∧
      (overtaken .transient 2 0).Stopped (watcherHandle .transient) ∧
      ¬ (overtaken .transient 2 0).Resigned ∧
      (overtaken .transient 2 0).session.store.record? 1 = some secondRecord ∧
      ∀ later, Session.SamePolicies ((overtaken .transient 2 0).goOn .transient later).session
        (((overtaken .transient 2 0).goOn .transient later).goOn .transient [.own]).session := by
  have hrooted := rooted_watched .transient
  have hserial : (watcherHandle .transient).serial < (watched .transient).monitors.nextSerial := by
    decide +kernel
  have hstopped : (overtaken .transient 2 0).Stopped (watcherHandle .transient) := by
    decide +kernel
  have hresigned : ¬ (overtaken .transient 2 0).Resigned := by decide +kernel
  refine ⟨hrooted, hserial, hstopped, hresigned, by decide +kernel, fun later => ?_⟩
  have hspared := (spared_of_run markingSettings (watcherHandle .transient)
    (watcherBinding .transient) (watched .transient) (watcher .transient) overtakers hrooted
    hserial (overtaking 2 0) later).2 hstopped hresigned
  rcases hspared with hsame | ⟨hkind, -⟩
  · exact hsame
  · exact nomatch hkind

/-- The monitor of the first policy was told to stop, that of the second runs, and the next step of
    the task of the first marks the record of the second as no longer alive. -/
def HitsSecond (kind : MonitorKind) (x : Scene) : Prop :=
  x.Stopped (watcherHandle kind) ∧ x.session.monitors.isLive 1 = true ∧
    x.session.store.record? 1 = some secondRecord ∧
    (x.goOn kind [.own]).session.store.record? 1 = some (secondRecord.marked false)

instance (kind : MonitorKind) (x : Scene) : Decidable (x.HitsSecond kind) :=
  inferInstanceAs (Decidable (_ ∧ _ ∧ _ ∧ _))

/-- This happens if the first policy is removed while the task of a persistent monitor takes its
    action, and also if that is done after the task of a transient one has taken the policy off the
    live ones. -/
theorem hitsSecond_overtaken :
    (overtaken .persistent 2 5).HitsSecond .persistent ∧
      (overtaken .transient 12 0).HitsSecond .transient := by
  decide +kernel

end Scene

end StoragePolicy
