import StoragePolicy.Dict

/-!
# The fan-out

The fan-out hands every sample to the observers of its tenant, in the order in which they were
attached. An observer may refuse a sample or fail on it; the others get it nevertheless.

## Main definitions

* `Fanout`: The observers of each tenant, each with an id.
* `Fanout.attach`, `Fanout.detach`: Changes to them.
* `Fanout.deliver`: Hands something to all observers of a tenant.

## Theorems

* `observers_attach`, `observers_detach`: What a change does to the observers of each tenant.
-/

namespace StoragePolicy

/-- The observers of each tenant, in the order in which they were attached. A tenant without
    observers has no group. -/
structure Fanout (α : Type) where
  groups : Dict String (List (Nat × α)) := Dict.empty

namespace Fanout

variable {α σ : Type}

/-- The observers of a tenant. -/
def observers (f : Fanout α) (tenantId : String) : List (Nat × α) :=
  (f.groups.get? tenantId).getD []

/-- The number of observers of a tenant. -/
def subscribers (f : Fanout α) (tenantId : String) : Nat := (f.observers tenantId).length

/-- Attaches an observer. -/
def attach (f : Fanout α) (tenantId : String) (id : Nat) (observer : α) : Fanout α :=
  ⟨f.groups.insert tenantId (f.observers tenantId ++ [(id, observer)])⟩

/-- The group of some observers; there is none without them. -/
def group (observers : List (Nat × α)) : Option (List (Nat × α)) :=
  if observers.isEmpty then none else some observers

/-- Detaches all observers of an id from a tenant. Tells whether there was one. -/
def detach (f : Fanout α) (tenantId : String) (id : Nat) : Bool × Fanout α :=
  let before := f.observers tenantId
  let after := before.filter fun o => !decide (o.1 = id)
  (before.length != after.length,
    ⟨f.groups.set tenantId (group after)⟩)

/-- What an observer does with a sample. -/
inductive Receipt where
  | accepted
  | refused
  /-- The observer failed. -/
  | failed
  deriving Repr, DecidableEq

/-- Hands something to observers one after the other; gives how many accepted it. -/
def deliverTo (receive : α → σ → Receipt × σ) : List (Nat × α) → σ → Nat × σ
  | [], s => (0, s)
  | (_, observer) :: rest, s =>
    let (receipt, s) := receive observer s
    let (count, s) := deliverTo receive rest s
    (if receipt = .accepted then count + 1 else count, s)

/-- Hands something to all observers of a tenant; gives how many accepted it. -/
def deliver (f : Fanout α) (tenantId : String) (receive : α → σ → Receipt × σ) (s : σ) : Nat × σ :=
  deliverTo receive (f.observers tenantId) s

/-- No observers are no group. -/
theorem getD_group (observers : List (Nat × α)) : (group observers).getD [] = observers := by
  cases observers <;> rfl

/-- Attaching adds an observer at the end of one tenant's observers. -/
theorem observers_attach (f : Fanout α) (tenantId other : String) (id : Nat) (observer : α) :
    (f.attach tenantId id observer).observers other =
      if other = tenantId then f.observers tenantId ++ [(id, observer)] else f.observers other := by
  by_cases h : other = tenantId <;> simp [observers, attach, h]

/-- Detaching leaves out the observers of one id of one tenant. -/
theorem observers_detach (f : Fanout α) (tenantId other : String) (id : Nat) :
    (f.detach tenantId id).2.observers other =
      if other = tenantId then (f.observers tenantId).filter fun o => !decide (o.1 = id)
      else f.observers other := by
  by_cases h : other = tenantId
  · subst h
    simp only [detach, observers, Dict.get?_set, if_true]
    exact getD_group _
  · simp [observers, detach, h]

end Fanout

end StoragePolicy
