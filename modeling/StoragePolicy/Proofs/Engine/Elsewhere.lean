import StoragePolicy.Proofs.Engine.Calls
import StoragePolicy.Proofs.Monitor.Duties
import StoragePolicy.Proofs.Registry.Records

/-!
# Calls about one policy

A call that is about one policy leaves all others alone: their records, whether they are live, their
tasks and their observers. For most calls this is plain from the id that they are given. The call
that tells a task to stop is given a serial number instead, so it has to be known whose task that
is. A program knows it from the reply by which it has taken the policy off the live ones, and it
remains so whatever others do, since serial numbers are never used again and a task keeps its
handle.

## Main definitions

* `Engine.Call.About`: Calls that are about one policy.
* `Engine.Heeds`: Programs that make such calls only.
* `Session.Owns`: Tasks that are those of a policy.
* `Session.Elsewhere`: Two sessions that differ in one policy only.

## Theorems

* `rooted_exec`, `handle?_exec`: Tasks keep their serial numbers and handles.
* `isHalted_exec`: A task that was told to stop stays so.
* `heeds_retire`: Retiring a policy is about that policy.
* `owns_exec`, `owns_told`: Whose a task is remains known, and replies tell it.
* `elsewhere_exec`: A call about one policy leaves all others alone.
-/

namespace StoragePolicy

open Registry

/-! ### Tasks -/

namespace Session

/-- A call starts a task, or leaves the handle of every task as it is and makes nothing live. -/
theorem exec_cases (c : Engine.Call) (s : Session) :
    (∃ id condition binding, s.monitors.isLive id = false ∧
        (exec c s).2.monitors = s.monitors.started id condition binding) ∨
      (∀ serial, (exec c s).2.monitors.handle? serial = s.monitors.handle? serial) ∧
        (exec c s).2.monitors.nextSerial = s.monitors.nextSerial ∧
        ∀ id serial, (exec c s).2.monitors.live.get? id = some serial →
          s.monitors.live.get? id = some serial := by
  -- A launch under an id that is live starts nothing, and every other call takes away at most.
  cases c with
  | launch id condition binding =>
    cases hlive : s.monitors.isLive id with
    | true =>
      have hnone : (exec (.launch id condition binding) s).2 = s := by
        simp only [exec, MonitorTable.launch, hlive, if_true]
      rw [hnone]
      exact Or.inr ⟨fun _ => rfl, rfl, fun _ _ h => h⟩
    | false =>
      simp only [exec, MonitorTable.launch_of_not_isLive _ _ _ _ hlive]
      exact Or.inl ⟨id, condition, binding, hlive, rfl⟩
  | take id =>
    right
    simp only [exec, MonitorTable.take]
    split
    · refine ⟨fun _ => rfl, rfl, fun other serial h => ?_⟩
      rw [Dict.get?_erase] at h
      split at h
      · cases h
      · exact h
    · exact ⟨fun _ => rfl, rfl, fun _ _ h => h⟩
  | drain => exact Or.inr ⟨fun _ => rfl, rfl, fun _ _ h => by cases h⟩
  | halt serial =>
    exact Or.inr ⟨fun other => MonitorTable.handle?_halt _ serial other, rfl, fun _ _ h => h⟩
  | deliver sample =>
    have hagrees := MonitorTable.agrees_deliver s.monitors sample
    refine Or.inr ⟨fun serial => ?_, hagrees.nextSerial, fun id serial h => ?_⟩
    · rw [MonitorTable.handle?_eq, MonitorTable.handle?_eq]
      exact congrArg _ (hagrees.core serial)
    · simp only [exec] at h
      rw [hagrees.live] at h
      exact h
  | _ => exact Or.inr ⟨fun _ => rfl, rfl, fun _ _ h => h⟩

theorem rooted_exec (c : Engine.Call) (s : Session) (h : s.monitors.Rooted) :
    (exec c s).2.monitors.Rooted := by
  rcases exec_cases c s with ⟨id, condition, binding, -, heq⟩ | ⟨hhandle, hnext, hlive⟩
  · rw [heq]
    exact MonitorTable.rooted_started _ h id condition binding
  · exact MonitorTable.rooted_of_handles _ h _ hhandle hnext hlive

/-- A task keeps its handle. -/
theorem handle?_exec (c : Engine.Call) (s : Session) (h : s.monitors.Rooted) (serial : Nat)
    (handle : MonitorHandle) (hhandle : s.monitors.handle? serial = some handle) :
    (exec c s).2.monitors.handle? serial = some handle := by
  rcases exec_cases c s with ⟨id, condition, binding, -, heq⟩ | ⟨hsame, -, -⟩
  · rw [heq, MonitorTable.handle?_started,
      if_neg (Nat.ne_of_lt (h.launched serial handle hhandle).1), hhandle]
  · rw [hsame, hhandle]

theorem rooted_run {α : Type} (p : Program Engine.interface α) (s : Session)
    (h : s.monitors.Rooted) : (s.run p).2.monitors.Rooted := by
  induction p generalizing s with
  | done a => exact h
  | call c next ih => exact ih _ _ (rooted_exec c s h)

/-- A task that was told to stop stays so, since no other gets its serial number. -/
theorem isHalted_exec (c : Engine.Call) (s : Session) (serial : Nat)
    (hserial : serial < s.monitors.nextSerial) (h : s.monitors.isHalted serial = true) :
    (exec c s).2.monitors.isHalted serial = true := by
  cases c with
  | launch id condition binding =>
    cases hlive : s.monitors.isLive id with
    | true =>
      simp only [exec, MonitorTable.launch, hlive, if_true]
      exact h
    | false =>
      -- The new task has the next number, which is not this one.
      simp only [exec, MonitorTable.launch_of_not_isLive _ _ _ _ hlive]
      rw [MonitorTable.isHalted_eq, MonitorTable.core?_started, if_neg (Nat.ne_of_lt hserial),
        ← MonitorTable.isHalted_eq]
      exact h
  | take id =>
    simp only [exec, MonitorTable.take]
    split <;> exact h
  | halt other =>
    simp only [exec]
    rw [MonitorTable.isHalted_eq, MonitorTable.core?_halt]
    rw [MonitorTable.isHalted_eq] at h
    split
    · cases s.monitors.core? serial <;> rfl
    · exact h
  | deliver sample =>
    have hagrees := MonitorTable.agrees_deliver s.monitors sample
    rw [MonitorTable.isHalted_eq] at h ⊢
    simp only [exec]
    rw [hagrees.core]
    exact h
  | _ => exact h

end Session

/-! ### Programs about one policy -/

namespace Engine

/-- Calls that are about one policy, given tasks that are known to be its own. -/
def Call.About (id : Nat) (known : List Nat) : Call → Prop
  | .store c => ∀ name, name ≠ Number.writeNatural id → PolicyRecord.keyStem ++ name ∉ c.changed
  | .install _ _ _ | .uninstall _ _ | .isLive _ | .isHalted _ => True
  | .take other | .unsubscribe _ other => other = id
  | .halt serial => serial ∈ known
  | _ => False

/-- The tasks that a reply tells of. -/
def Call.told : (c : Call) → c.Reply → List Nat
  | .take _, some handle => [handle.serial]
  | _, _ => []

/-- Programs that make calls about one policy only, whatever is replied to them. -/
def Heeds {α : Type} (id : Nat) : Program interface α → List Nat → Prop
  | .done _, _ => True
  | .call c next, known =>
    c.About id known ∧ ∀ reply, Heeds id (next reply) (c.told reply ++ known)

theorem about_mono (id : Nat) (known more : List Nat) (h : ∀ serial ∈ known, serial ∈ more)
    (c : Call) (hc : c.About id known) : c.About id more := by
  cases c with
  | halt serial => exact h serial hc
  | _ => exact hc

/-- Where no task has to be known, nothing need be kept of the replies. -/
theorem heeds_of_makes {α : Type} (id : Nat) (p : Program interface α)
    (hp : p.Makes (Call.About id [])) (known : List Nat) : Heeds id p known := by
  induction p generalizing known with
  | done a => trivial
  | call c next ih =>
    exact ⟨about_mono id [] known (fun _ h => nomatch h) c hp.1,
      fun reply => ih reply (hp.2 reply) _⟩

/-- The key of a record tells its id. -/
theorem recordKey_ne_storeKey (id : Nat) (name : String) (h : name ≠ Number.writeNatural id) :
    PolicyRecord.keyStem ++ name ≠ PolicyRecord.storeKey id :=
  fun heq => h (append_right_inj _ _ _ heq)

theorem about_setAlive (id : Nat) (alive : Bool) :
    (ofRegistry (setAlive id alive)).run.Makes (Call.About id []) := by
  refine makes_ofRegistry (Call.About id []) _ (Registry.makes_ask _ _ fun name hname => ?_)
  simp [Store.Call.changed, recordKey_ne_storeKey id name hname]

theorem about_deleteDynamic (id : Nat) :
    (ofRegistry (deleteDynamic id)).run.Makes (Call.About id []) := by
  refine makes_ofRegistry (Call.About id []) _ (makes_deleteDynamic _ id ?_ ?_ ?_) <;>
    intro name hname
  · exact List.not_mem_nil
  · simp [Store.Call.changed, Mutation.key, recordKey_ne_storeKey id name hname]
  · simp [Store.Call.changed, recordKey_ne_counterKey]

/-- The task that is told to stop is the one that was taken off the live ones. -/
theorem heeds_retire (settings : Settings) (id : Nat) : Heeds id (retire settings id) [] := by
  refine ⟨rfl, fun taken => ?_⟩
  cases taken with
  | none => trivial
  | some handle =>
    refine ⟨List.mem_cons_self, fun _ => ⟨rfl, fun _ => heeds_of_makes id _ ?_ _⟩⟩
    cases settings.retirement with
    | markInactive => exact makes_discard_program _ _ (about_setAlive id false)
    | delete => exact makes_discard_program _ _ (about_deleteDynamic id)

end Engine

/-! ### Other policies -/

namespace Session

/-- Tasks that are those of a policy. -/
def Owns (id : Nat) (known : List Nat) (s : Session) : Prop :=
  ∀ serial ∈ known, ∃ handle, s.monitors.handle? serial = some handle ∧ handle.policyId = id

theorem owns_nil (id : Nat) (s : Session) : Owns id [] s := fun _ hserial => nomatch hserial

/-- Whatever is called, tasks remain those of the policy. -/
theorem owns_exec (c : Engine.Call) (s : Session) (h : s.monitors.Rooted) (id : Nat)
    (known : List Nat) (howns : Owns id known s) : Owns id known (exec c s).2 := by
  intro serial hserial
  rcases howns serial hserial with ⟨handle, hhandle, hid⟩
  exact ⟨handle, handle?_exec c s h serial handle hhandle, hid⟩

/-- The tasks that a reply tells of are those of the policy that the call is about. -/
theorem owns_told (c : Engine.Call) (s : Session) (h : s.monitors.Rooted) (id : Nat)
    (known : List Nat) (hc : c.About id known) (howns : Owns id known s) :
    Owns id (c.told (exec c s).1 ++ known) (exec c s).2 := by
  have hkept := owns_exec c s h id known howns
  cases c with
  | take other =>
    have hother : other = id := hc
    subst hother
    cases hlive : s.monitors.live.get? other with
    | none =>
      have hnone : (exec (.take other) s).1 = none := by
        simp only [exec, MonitorTable.take, hlive]
        rfl
      rw [hnone]
      exact hkept
    | some serial =>
      -- The policy was live with a task of its own, and that one is given.
      rcases h.live other serial hlive with ⟨handle, hhandle, hid⟩
      have hsome : (exec (.take other) s).1 = some handle := by
        simp only [exec, MonitorTable.take, hlive, hhandle]
        rfl
      rw [hsome]
      intro own hown
      rcases List.mem_cons.mp hown with rfl | hown
      · rw [(h.launched serial handle hhandle).2]
        exact ⟨handle, handle?_exec _ s h serial handle hhandle, hid⟩
      · exact hkept own hown
  | _ => exact hkept

/-- Two sessions that differ in one policy only: every other has the same record, is live or not
    with the same task, and has the same tasks and observers. -/
structure Elsewhere (id : Nat) (s t : Session) : Prop where
  records : ∀ name, name ≠ Number.writeNatural id →
    t.store.get? (PolicyRecord.keyStem ++ name) = s.store.get? (PolicyRecord.keyStem ++ name)
  live : ∀ other, other ≠ id → t.monitors.live.get? other = s.monitors.live.get? other
  tasks : ∀ serial handle, s.monitors.handle? serial = some handle → handle.policyId ≠ id →
    t.monitors.core? serial = s.monitors.core? serial
  observers : ∀ tenantId other serial, other ≠ id →
    ((other, serial) ∈ t.monitors.fanout.observers tenantId ↔
      (other, serial) ∈ s.monitors.fanout.observers tenantId)

theorem elsewhere_refl (id : Nat) (s : Session) : Elsewhere id s s :=
  ⟨fun _ _ => rfl, fun _ _ => rfl, fun _ _ _ _ => rfl, fun _ _ _ _ => Iff.rfl⟩

/-- A call about one policy leaves all others alone. -/
theorem elsewhere_exec (id : Nat) (known : List Nat) (c : Engine.Call) (s : Session)
    (hc : c.About id known) (howns : Owns id known s) : Elsewhere id s (exec c s).2 := by
  have hself := elsewhere_refl id s
  cases c with
  | store c =>
    exact ⟨fun name hname => get?_exec_store c s _ (hc name hname), hself.live, hself.tasks,
      hself.observers⟩
  | take other =>
    have hid : other = id := hc
    subst hid
    simp only [exec, MonitorTable.take]
    split
    · refine ⟨hself.records, fun own hown => ?_, hself.tasks, hself.observers⟩
      rw [Dict.get?_erase, if_neg hown]
    · exact hself
  | halt serial =>
    rcases howns serial hc with ⟨halted, hhalted, hid⟩
    refine ⟨hself.records, hself.live, fun own handle hhandle hother => ?_, hself.observers⟩
    simp only [exec, MonitorTable.core?_halt]
    rw [if_neg]
    rintro rfl
    -- The task has one handle only.
    rw [hhalted] at hhandle
    cases hhandle
    exact hother hid
  | unsubscribe tenantId other =>
    have hid : other = id := hc
    subst hid
    refine ⟨hself.records, hself.live, hself.tasks, fun tenant own serial hown => ?_⟩
    simp only [exec, MonitorTable.unsubscribe, Fanout.observers_detach]
    split
    · rename_i htenant
      rw [List.mem_filter, htenant]
      simp [hown]
    · exact Iff.rfl
  | install target filter entry => exact ⟨hself.records, hself.live, hself.tasks, hself.observers⟩
  | uninstall target filter => exact ⟨hself.records, hself.live, hself.tasks, hself.observers⟩
  | isLive other => exact hself
  | isHalted serial => exact hself
  | _ => exact absurd hc not_false

end Session

end StoragePolicy
