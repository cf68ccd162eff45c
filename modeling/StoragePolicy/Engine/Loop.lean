import StoragePolicy.Engine.Monitoring
import StoragePolicy.Monitor.Handle

/-!
# The loop of a task

The task of a monitor runs in a loop: it waits for a sample or for the signal to stop, looks at the
flag, takes in the sample, and if its monitor fires, it takes its action and what follows from that.
Here the loop is cut into its steps, so that the steps of others may fall between any two of them.

What is left of a turn in each phase is a program, and the first of these programs is the turn as it
is run in one piece.

## Main definitions

* `Engine.Phase`: Where a task stands.
* `Engine.Event`: What can be seen of a task from outside.
* `Engine.Phase.step`: The next step of a task.
* `Engine.Phase.rest`: What is left of a turn.

## Theorems

* `rest_received`: A turn begins when a sample has been received.
* `rest_of_move`, `rest_of_ask`: Every step leaves what is left of the turn.
-/

namespace StoragePolicy

namespace Engine

/-- Where a task stands. -/
inductive Phase where
  /-- It waits for a sample or for the signal. -/
  | waiting (m : Monitor)
  /-- It has received a sample and has not looked at the flag. -/
  | received (m : Monitor) (sample : Sample)
  /-- The flag was not set. -/
  | cleared (m : Monitor) (sample : Sample)
  /-- The monitor has fired. -/
  | fired (m : Monitor)
  /-- The action is on its way. -/
  | acting (m : Monitor) (rest : Program interface (Except EngineError Outcome))
  /-- The action has come to its end. -/
  | acted (m : Monitor) (success : Bool)
  /-- The monitor is to be retired, and the task has not looked at the flag. -/
  | spent (m : Monitor)
  /-- The flag was not set. -/
  | resigned (m : Monitor)
  /-- The policy is being retired. -/
  | retiring (m : Monitor) (rest : Program interface Unit)
  /-- The action of a persistent policy is being noted. -/
  | noting (m : Monitor) (rest : Program interface Unit)
  /-- It has left the loop. -/
  | leaving (m : Monitor)
  | ended (m : Monitor)

/-- What can be seen of a task from outside. -/
inductive Event where
  | receives (sample : Sample)
  | begins
  | finishes (success : Bool)
  | retires
  | ends
  deriving Repr, DecidableEq

/-- The next step of a task. -/
inductive Step where
  /-- It takes the signal or a sample, whichever is there; the signal comes first. -/
  | take (m : Monitor)
  /-- It goes on by itself. -/
  | move (event : Option Event) (next : Phase)
  /-- It makes a call. -/
  | ask (c : Call) (next : c.Reply → Phase)
  /-- It has ended. -/
  | none

namespace Phase

/-- The monitor of the task. -/
def monitor : Phase → Monitor
  | .waiting m | .received m _ | .cleared m _ | .fired m | .acting m _ | .acted m _ | .spent m
  | .resigned m | .retiring m _ | .noting m _ | .leaving m | .ended m => m

section Step

variable (settings : Settings) (handle : MonitorHandle) (binding : MonitorBinding)

/-- What follows when a sample has been taken in. -/
def afterSample : Bool × Monitor → Phase
  | (true, m) => .fired m
  | (false, m) => .waiting m

/-- What follows when the end of an action has been taken in. -/
def afterAction (success : Bool) : Verdict × Monitor → Phase
  | (.retire, m) => .spent m
  | (.goOn, m) =>
    if success then .noting m (afterPersistentFire settings handle.policyId) else .waiting m

/-- The next step of a task. -/
def step : Phase → Step
  | .waiting m => .take m
  | .received m sample =>
    .ask (.isHalted handle.serial) fun halted : Bool =>
      if halted then .leaving m else .cleared m sample
  | .cleared m sample => .move none (afterSample (m.observe sample.metric sample.value))
  | .fired m =>
    .move (some .begins)
      (.acting m (dispatch binding.target binding.action binding.objectFilter).run)
  | .acting m (.call c next) => .ask c fun reply => .acting m (next reply)
  | .acting m (.done outcome) => .move (some (.finishes outcome.isOk)) (.acted m outcome.isOk)
  | .acted m success => .move none (afterAction settings handle success (m.conclude success))
  | .spent m =>
    .ask (.isHalted handle.serial) fun halted : Bool => if halted then .leaving m else .resigned m
  | .resigned m => .move (some .retires) (.retiring m (retire settings handle.policyId))
  | .retiring m (.call c next) => .ask c fun reply => .retiring m (next reply)
  | .retiring m (.done ()) => .move none (.leaving m)
  | .noting m (.call c next) => .ask c fun reply => .noting m (next reply)
  | .noting m (.done ()) => .move none (.waiting m)
  | .leaving m => .move (some .ends) (.ended m.stop)
  | .ended _ => .none

/-! ### What is left of a turn -/

/-- What is left when the end of an action has been taken in. -/
def restOfAction (success : Bool) : Verdict × Monitor → Program interface (Monitor × Bool)
  | (.retire, m) => do
    let halted : Bool ← Engine.ask (.isHalted handle.serial)
    if !halted then retire settings handle.policyId
    return (m.stop, false)
  | (.goOn, m) => do
    if success then afterPersistentFire settings handle.policyId
    return (m, true)

/-- What is left of a turn: what the monitor becomes, and whether it goes on to the next sample. -/
def rest : Phase → Program interface (Monitor × Bool)
  | .waiting m => pure (m, true)
  | .received m sample => turn settings handle binding m sample
  | .cleared m sample =>
    match m.observe sample.metric sample.value with
    | (false, m) => pure (m, true)
    | (true, m) => do
      let outcome ← (dispatch binding.target binding.action binding.objectFilter).run
      restOfAction settings handle outcome.isOk (m.conclude outcome.isOk)
  | .fired m => do
    let outcome ← (dispatch binding.target binding.action binding.objectFilter).run
    restOfAction settings handle outcome.isOk (m.conclude outcome.isOk)
  | .acting m p => do
    let outcome ← p
    restOfAction settings handle outcome.isOk (m.conclude outcome.isOk)
  | .acted m success => restOfAction settings handle success (m.conclude success)
  | .spent m => restOfAction settings handle true (.retire, m)
  | .resigned m => do
    retire settings handle.policyId
    return (m.stop, false)
  | .retiring m p => do
    p
    return (m.stop, false)
  | .noting m p => do
    p
    return (m, true)
  | .leaving m => pure (m.stop, false)
  | .ended m => pure (m, false)

/-- When a task goes on by itself, what is left of its turn stays as it is. -/
theorem rest_of_move (phase : Phase) (event : Option Event) (next : Phase)
    (h : phase.step settings handle binding = .move event next) :
    phase.rest settings handle binding = next.rest settings handle binding := by
  -- A phase that waits for a reply does not move. The others move by what the task knows already,
  -- and a part that has been gone through hands over to the phase after it.
  cases phase with
  | waiting m => exact nomatch h
  | received m sample => exact nomatch h
  | cleared m sample =>
    cases h
    rw [rest]
    rcases m.observe sample.metric sample.value with ⟨fires, m'⟩
    cases fires <;> rfl
  | fired m =>
    cases h
    rfl
  | acting m p =>
    cases p with
    | call c next' => exact nomatch h
    | done outcome =>
      cases h
      rfl
  | acted m success =>
    cases h
    rw [rest]
    rcases m.conclude success with ⟨verdict, m'⟩
    cases verdict with
    | retire => rfl
    | goOn => cases success <;> rfl
  | spent m => exact nomatch h
  | resigned m =>
    cases h
    rfl
  | retiring m p =>
    cases p with
    | call c next' => exact nomatch h
    | done a =>
      cases h
      rfl
  | noting m p =>
    cases p with
    | call c next' => exact nomatch h
    | done a =>
      cases h
      rfl
  | leaving m =>
    cases h
    rfl
  | ended m => exact nomatch h

/-- When a task makes a call, it makes the first call of what is left of its turn. -/
theorem rest_of_ask (phase : Phase) (c : Call) (next : c.Reply → Phase)
    (h : phase.step settings handle binding = .ask c next) :
    phase.rest settings handle binding =
      .call c fun reply => (next reply).rest settings handle binding := by
  -- Five phases make a call. In the others a step is a move, or there is none.
  cases phase with
  | received m sample =>
    cases h
    refine congrArg (Program.call _) (funext fun halted => ?_)
    cases halted <;> rfl
  | acting m p =>
    cases p with
    | call c' next' =>
      cases h
      rfl
    | done outcome => exact nomatch h
  | spent m =>
    cases h
    refine congrArg (Program.call _) (funext fun halted => ?_)
    cases halted <;> rfl
  | retiring m p =>
    cases p with
    | call c' next' =>
      cases h
      rfl
    | done a => exact nomatch h
  | noting m p =>
    cases p with
    | call c' next' =>
      cases h
      rfl
    | done a => exact nomatch h
  | _ => exact nomatch h

end Step

end Phase

end Engine

end StoragePolicy
