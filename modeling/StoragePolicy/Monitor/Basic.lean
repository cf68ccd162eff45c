import StoragePolicy.Condition.Basic
import StoragePolicy.Sample.Basic
import StoragePolicy.Rule.Basic

/-!
# Monitors

A monitor watches the condition of one dynamic policy. It keeps the latest value of each metric
that the condition names, and fires when the condition comes to hold. It fires again only after
the condition has failed to hold in between, or if its action failed. A transient monitor stops
once its action has succeeded.

## Main definitions

* `MonitorKind`: Whether a monitor goes on after its action.
* `Monitor`: The state of a monitor.
* `Monitor.observe`: Takes in a sample.
* `Monitor.conclude`: Takes in the end of its action.

## Theorems

* `observe_of_not_references`: A metric that the condition does not name changes nothing.
* `observe_fires`: After firing the monitor is no longer armed.
-/

namespace StoragePolicy

/-- Whether a monitor goes on after its action. -/
inductive MonitorKind where
  /-- It goes on until it is stopped. -/
  | persistent
  /-- It fires once and retires. -/
  | transient
  deriving Repr, DecidableEq

namespace MonitorKind

/-- The name of a kind. -/
def name : MonitorKind → String
  | .persistent => "persistent"
  | .transient => "transient"

/-- The kind of the monitor of an action. -/
def ofAction (a : FilterAction) : MonitorKind := if a.transient then .transient else .persistent

end MonitorKind

/-- What a monitor does after its action. -/
inductive Verdict where
  | goOn
  | retire
  deriving Repr, DecidableEq

/-- The state of a monitor: the latest values of its metrics, whether the condition has failed to
    hold since it last fired, and whether it has stopped. -/
structure Monitor where
  kind : MonitorKind
  condition : Condition
  latest : MetricValues := Dict.empty
  armed : Bool := true
  stopped : Bool := false

namespace Monitor

/-- Whether the condition holds on the latest values. -/
def holds (m : Monitor) : Bool := m.condition.holds m.latest

/-- Takes in the value of a metric. Tells whether the monitor fires. -/
def observe (m : Monitor) (metric : String) (value : Float) : Bool × Monitor :=
  if m.stopped || !m.condition.references metric then (false, m)
  else
    let m := { m with latest := m.latest.insert metric value }
    if m.holds then (m.armed, { m with armed := false }) else (false, { m with armed := true })

/-- Stops a monitor. -/
def stop (m : Monitor) : Monitor := { m with stopped := true }

/-- Takes in the end of the action: after a failure the monitor may fire again at once. -/
def conclude (m : Monitor) (dispatched : Bool) : Verdict × Monitor :=
  if !dispatched then (.goOn, { m with armed := true })
  else
    match m.kind with
    | .persistent => (.goOn, m)
    | .transient => (.retire, m.stop)

/-- A metric that the condition does not name changes nothing. -/
theorem observe_of_not_references (m : Monitor) (metric : String) (value : Float)
    (h : m.condition.references metric = false) : m.observe metric value = (false, m) := by
  simp [observe, h]

/-- A monitor that fires was armed and is so no longer, and its condition holds. -/
theorem observe_fires (m : Monitor) (metric : String) (value : Float)
    (h : (m.observe metric value).1 = true) :
    m.armed = true ∧ (m.observe metric value).2.armed = false ∧
      (m.observe metric value).2.holds = true := by
  simp only [observe] at h ⊢
  split at h
  · exact absurd h (by simp)
  · rename_i hs
    rw [if_neg hs]
    split at h
    · rename_i hh
      rw [if_pos hh]
      exact ⟨h, rfl, hh⟩
    · exact absurd h (by simp)

end Monitor

end StoragePolicy
