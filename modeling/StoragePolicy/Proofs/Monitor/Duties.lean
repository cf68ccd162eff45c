import Mathlib.Data.List.Nodup
import StoragePolicy.Proofs.Monitor.Table

/-!
# Monitors that have still to be stopped

To stop a monitor takes three steps: it is taken off the live ones, its task is told to stop, and it
is detached from its tenant. Who has done the first owes the others. Steps of others may fall
between them, and even another monitor of the same policy may be started meanwhile. So the tables
need not agree at every point, but where they do not, somebody has still something to do. What does
hold at every point is that tasks keep their serial numbers and handles.

As soon as nobody owes anything, no policy has two running monitors or two observers. It may be that
a live monitor has no observer: one that was started too early is detached together with its
predecessor.

## Main definitions

* `MonitorTable.Rooted`: Tasks stand under their own serial numbers, and live policies have tasks.
* `Duty`: What somebody who has taken a monitor off the live ones owes.
* `MonitorTable.Tended`: Whatever is not live is owed by somebody.
* `MonitorTable.Exclusive`: No policy has two running monitors or two observers.

## Theorems

* `rooted_started`, `rooted_of_handles`: Tasks keep their serial numbers.
* `tended_started`, `tended_take`, `tended_halt`, `tended_unsubscribe`: What the steps make of what
  is owed.
* `exclusive_of_tended`: Once nothing is owed, there is one of each.
-/

namespace StoragePolicy

namespace MonitorTable

/-! ### Serial numbers -/

theorem isHalted_eq (t : MonitorTable) (serial : Nat) :
    t.isHalted serial = ((t.core? serial).map MonitorTask.halted).getD true := by
  rw [isHalted, core?]
  cases t.tasks.get? serial <;> rfl

theorem handle?_eq (t : MonitorTable) (serial : Nat) :
    t.handle? serial = (t.core? serial).map MonitorTask.handle := by
  rw [handle?, core?]
  cases t.tasks.get? serial <;> rfl

theorem handle?_halt (t : MonitorTable) (serial other : Nat) :
    (t.halt serial).handle? other = t.handle? other := by
  rw [handle?_eq, handle?_eq, core?_halt]
  split
  · rw [Option.map_map]
    rfl
  · rfl

theorem handle?_started (t : MonitorTable) (id : Nat) (condition : Condition)
    (binding : MonitorBinding) (serial : Nat) : (t.started id condition binding).handle? serial =
      if serial = t.nextSerial then some (t.newTask id condition binding).handle
      else t.handle? serial := by
  rw [handle?_eq, handle?_eq, core?_started]
  split <;> rfl

/-- Every task has the serial number it stands under, and every live policy has a task. -/
structure Rooted (t : MonitorTable) : Prop where
  launched : ∀ serial handle, t.handle? serial = some handle →
    serial < t.nextSerial ∧ handle.serial = serial
  live : ∀ id serial, t.live.get? id = some serial →
    ∃ handle, t.handle? serial = some handle ∧ handle.policyId = id

theorem rooted_of_consistent (t : MonitorTable) (h : t.Consistent) : t.Rooted := by
  refine ⟨fun serial handle hhandle => ?_, fun id serial hid => ?_⟩
  · rw [handle?_eq, Option.map_eq_some_iff] at hhandle
    rcases hhandle with ⟨task, htask, rfl⟩
    have hspec := h.launched serial task htask
    exact ⟨hspec.1, hspec.2.serial⟩
  · rcases h.live id serial hid with ⟨task, htask, -, hpolicy⟩
    exact ⟨task.handle, handle?_of_core? t serial task htask, hpolicy⟩

section Rooted

variable (t : MonitorTable) (h : t.Rooted)

include h

/-- Whatever keeps all handles and makes nothing live keeps the serial numbers. -/
theorem rooted_of_handles (u : MonitorTable)
    (hhandle : ∀ serial, u.handle? serial = t.handle? serial) (hnext : u.nextSerial = t.nextSerial)
    (hlive : ∀ id serial, u.live.get? id = some serial → t.live.get? id = some serial) :
    u.Rooted := by
  refine ⟨fun serial handle hserial => ?_, fun id serial hid => ?_⟩
  · rw [hhandle] at hserial
    rw [hnext]
    exact h.launched serial handle hserial
  · rw [hhandle]
    exact h.live id serial (hlive id serial hid)

/-- The next task gets the next serial number. -/
theorem rooted_started (id : Nat) (condition : Condition) (binding : MonitorBinding) :
    (t.started id condition binding).Rooted := by
  have hnext : (t.started id condition binding).nextSerial = t.nextSerial + 1 := rfl
  refine ⟨fun serial handle hhandle => ?_, fun other serial hother => ?_⟩
  · rw [handle?_started] at hhandle
    rw [hnext]
    split at hhandle
    · rename_i hserial
      cases hhandle
      exact ⟨by omega, hserial.symm⟩
    · have hspec := h.launched serial handle hhandle
      exact ⟨by omega, hspec.2⟩
  · rw [live_started] at hother
    rw [handle?_started]
    split at hother
    · rename_i hid
      cases hother
      exact ⟨_, if_pos rfl, hid.symm⟩
    · rcases h.live other serial hother with ⟨handle, hhandle, hpolicy⟩
      have hlt := (h.launched serial handle hhandle).1
      exact ⟨handle, by rw [if_neg (Nat.ne_of_lt hlt), hhandle], hpolicy⟩

theorem launched_core (serial : Nat) (task : MonitorTask) (htask : t.core? serial = some task) :
    serial < t.nextSerial ∧ task.handle.serial = serial :=
  h.launched serial task.handle (handle?_of_core? t serial task htask)

theorem core_of_live (id serial : Nat) (hid : t.live.get? id = some serial) :
    ∃ task, t.core? serial = some task ∧ task.handle.policyId = id := by
  rcases h.live id serial hid with ⟨handle, hhandle, hpolicy⟩
  rw [handle?_eq, Option.map_eq_some_iff] at hhandle
  rcases hhandle with ⟨task, htask, rfl⟩
  exact ⟨task, htask, hpolicy⟩

end Rooted

end MonitorTable

/-! ### What is owed -/

/-- What is owed to a monitor that has been taken off the live ones. -/
inductive Duty where
  | none
  /-- Its task has to be told to stop. -/
  | halt (handle : MonitorHandle)
  /-- It has to be detached from its tenant. -/
  | detach (handle : MonitorHandle)

namespace MonitorTable

/-- Every task that runs, and every observer, is that of a live policy or is going to be stopped or
    detached, given what is owed. -/
structure Tended (t : MonitorTable) (due : Duty → Prop) : Prop extends t.Rooted where
  running : ∀ serial task, t.core? serial = some task → task.halted = false →
    t.live.get? task.handle.policyId = some serial ∨ due (.halt task.handle)
  observers : ∀ tenantId id serial, (id, serial) ∈ t.fanout.observers tenantId →
    ∃ task, t.core? serial = some task ∧ task.handle.policyId = id ∧
      task.handle.target.tenantId = tenantId ∧
      (t.live.get? id = some serial ∨ due (.halt task.handle) ∨ due (.detach task.handle))
  once : ∀ tenantId, (t.fanout.observers tenantId).Nodup

/-- No policy has two running monitors, and none has two observers, be it of one tenant or of
    several. -/
structure Exclusive (t : MonitorTable) : Prop where
  monitors : ∀ serial serial' handle handle', t.handle? serial = some handle →
    t.handle? serial' = some handle' → t.isHalted serial = false → t.isHalted serial' = false →
    handle.policyId = handle'.policyId → serial = serial'
  observers : ∀ tenantId tenantId' id serial serial',
    (id, serial) ∈ t.fanout.observers tenantId → (id, serial') ∈ t.fanout.observers tenantId' →
    tenantId = tenantId' ∧ serial = serial'
  once : ∀ tenantId, ((t.fanout.observers tenantId).map Prod.fst).Nodup

/-- Between the operations nothing is owed. -/
theorem tended_of_consistent (t : MonitorTable) (due : Duty → Prop) (h : t.Consistent) :
    t.Tended due where
  toRooted := rooted_of_consistent t h
  running := fun serial task htask hhalted => Or.inl (h.running serial task htask hhalted)
  observers := by
    intro tenantId id serial hmem
    rcases (h.observers tenantId id serial).mp hmem with ⟨hid, task, htask, htenant⟩
    rcases h.live id serial hid with ⟨task', htask', -, hpolicy⟩
    rw [htask] at htask'
    cases htask'
    exact ⟨task, htask, hpolicy, htenant, Or.inl hid⟩
  once := fun tenantId => List.Nodup.of_map _ (h.once tenantId)

section Steps

variable (t : MonitorTable) (due due' : Duty → Prop) (h : t.Tended due)

include h

/-- What is owed may be owed by another. -/
theorem tended_mono (hdue : ∀ d, d ≠ .none → due d → due' d) : t.Tended due' where
  toRooted := h.toRooted
  running := fun serial task htask hhalted =>
    (h.running serial task htask hhalted).imp_right (hdue _ (by simp))
  observers := by
    intro tenantId id serial hmem
    rcases h.observers tenantId id serial hmem with ⟨task, htask, hid, htenant, hcause⟩
    exact ⟨task, htask, hid, htenant,
      hcause.imp_right (Or.imp (hdue _ (by simp)) (hdue _ (by simp)))⟩
  once := h.once

/-- What is live is the task of another policy than one that is not. -/
theorem other_of_tended (id : Nat) (hlive : t.isLive id = false) (other serial : Nat)
    (hother : t.live.get? other = some serial) : other ≠ id ∧ serial ≠ t.nextSerial := by
  refine ⟨ne_of_not_isLive t id hlive other serial hother, ?_⟩
  rcases h.live other serial hother with ⟨handle, hhandle, -⟩
  have hlt := (h.launched serial handle hhandle).1
  omega

/-- A new task is that of a live policy. -/
theorem tended_started (id : Nat) (condition : Condition) (binding : MonitorBinding)
    (hlive : t.isLive id = false) : (t.started id condition binding).Tended due := by
  have hold := other_of_tended t due h id hlive
  -- What stands in the tables stays there.
  have hcore : ∀ serial task, t.core? serial = some task →
      (t.started id condition binding).core? serial = some task := by
    intro serial task htask
    have hlt := (launched_core t h.toRooted serial task htask).1
    rw [core?_started, if_neg (Nat.ne_of_lt hlt), htask]
  have hkept : ∀ other serial, t.live.get? other = some serial →
      (t.started id condition binding).live.get? other = some serial := by
    intro other serial hother
    rw [live_started, if_neg (hold other serial hother).1, hother]
  refine ⟨rooted_started t h.toRooted id condition binding, ?_, ?_, ?_⟩
  · intro serial task htask hhalted
    rw [core?_started] at htask
    split at htask
    · rename_i hserial
      cases htask
      have hpolicy : (t.newTask id condition binding).handle.policyId = id := rfl
      rw [live_started, if_pos hpolicy, hserial]
      exact Or.inl rfl
    · exact (h.running serial task htask hhalted).imp_left (hkept _ serial)
  · intro tenantId other serial hmem
    rw [mem_observers_started] at hmem
    rcases hmem with hmem | ⟨rfl, rfl, rfl⟩
    · rcases h.observers tenantId other serial hmem with ⟨task, htask, hid, htenant, hcause⟩
      exact ⟨task, hcore serial task htask, hid, htenant, hcause.imp_left (hkept other serial)⟩
    · refine ⟨t.newTask other condition binding, ?_, rfl, rfl, Or.inl ?_⟩
      · rw [core?_started, if_pos rfl]
      · rw [live_started, if_pos rfl]
  · intro tenantId
    rw [observers_started]
    split
    · -- No observer has the next serial number yet.
      refine List.nodup_append.mpr ⟨h.once _, List.nodup_singleton _, ?_⟩
      rintro ⟨other, serial⟩ hmem entry hentry rfl
      rcases h.observers _ other serial hmem with ⟨task, htask, -⟩
      have hlt := (launched_core t h.toRooted serial task htask).1
      cases List.mem_singleton.mp hentry
      exact Nat.lt_irrefl _ hlt
    · exact h.once tenantId

/-- Who takes a monitor off the live ones owes it to stop and detach it. -/
theorem tended_take (id : Nat) (hdue : ∀ d, d ≠ .none → due d → due' d)
    (hhandle : ∀ handle, (t.take id).1 = some handle → due' (.halt handle)) :
    (t.take id).2.Tended due' := by
  cases hlive : t.live.get? id with
  | none =>
    rw [take_of_not_isLive t id ((isLive_eq_false_iff t id).mpr hlive)]
    exact tended_mono t due due' h hdue
  | some own =>
    rcases core_of_live t h.toRooted id own hlive with ⟨task, htask, hpolicy⟩
    have htake : t.take id = (some task.handle, { t with live := t.live.erase id }) := by
      simp only [take, hlive, handle?_of_core? t own task htask]
    have howed := hhandle task.handle (by rw [htake])
    rw [htake]
    have hcore : ∀ serial, core? { t with live := t.live.erase id } serial = t.core? serial :=
      fun _ => rfl
    -- What was live still is, or it is the monitor that has been taken off.
    have hkept : ∀ other serial, t.live.get? other = some serial →
        (t.live.erase id).get? other = some serial ∨ other = id ∧ serial = own := by
      intro other serial hother
      rw [Dict.get?_erase]
      by_cases hid : other = id
      · rw [hid, hlive] at hother
        exact Or.inr ⟨hid, (Option.some.inj hother).symm⟩
      · rw [if_neg hid]
        exact Or.inl hother
    refine ⟨rooted_of_handles t h.toRooted _ (fun _ => rfl) rfl ?_, ?_, ?_, h.once⟩
    · intro other serial hother
      rw [Dict.get?_erase] at hother
      split at hother
      · cases hother
      · exact hother
    · intro serial task' htask' hhalted
      rw [hcore] at htask'
      rcases h.running serial task' htask' hhalted with hrunning | hrunning
      · rcases hkept _ serial hrunning with hstays | ⟨-, rfl⟩
        · exact Or.inl hstays
        · -- It is the monitor that has been taken off, which runs on until it is told to stop.
          rw [htask] at htask'
          cases htask'
          exact Or.inr howed
      · exact Or.inr (hdue _ (by simp) hrunning)
    · intro tenantId other serial hmem
      rcases h.observers tenantId other serial hmem with ⟨task', htask', hid, htenant, hcause⟩
      refine ⟨task', htask', hid, htenant, ?_⟩
      rcases hcause with hcause | hcause | hcause
      · rcases hkept _ serial hcause with hstays | ⟨-, rfl⟩
        · exact Or.inl hstays
        · rw [htask] at htask'
          cases htask'
          exact Or.inr (Or.inl howed)
      · exact Or.inr (Or.inl (hdue _ (by simp) hcause))
      · exact Or.inr (Or.inr (hdue _ (by simp) hcause))

/-- Once its task has been told to stop, a monitor has still to be detached. -/
theorem tended_halt (handle : MonitorHandle)
    (hdue : ∀ d, d ≠ .none → due d → d = .halt handle ∨ due' d) (hdetach : due' (.detach handle)) :
    (t.halt handle.serial).Tended due' := by
  -- A task is what it was, but that it may have been told to stop.
  have hcore : ∀ serial task, (t.halt handle.serial).core? serial = some task →
      ∃ old, t.core? serial = some old ∧ task.handle = old.handle ∧
        (serial = handle.serial → task.halted = true) ∧ (serial ≠ handle.serial → task = old) := by
    intro serial task htask
    rw [core?_halt] at htask
    split at htask
    · rename_i hserial
      rcases Option.map_eq_some_iff.mp htask with ⟨old, hold, rfl⟩
      exact ⟨old, hold, rfl, fun _ => rfl, fun hne => absurd hserial hne⟩
    · rename_i hserial
      exact ⟨task, htask, rfl, fun heq => absurd heq hserial, fun _ => rfl⟩
  have hnew : ∀ serial old, t.core? serial = some old →
      ∃ task, (t.halt handle.serial).core? serial = some task ∧ task.handle = old.handle := by
    intro serial old hold
    rw [core?_halt]
    rw [hold]
    split
    · exact ⟨{ old with halted := true }, rfl, rfl⟩
    · exact ⟨old, rfl, rfl⟩
  refine ⟨rooted_of_handles t h.toRooted _ (handle?_halt t handle.serial) rfl fun _ _ hid => hid,
    ?_, ?_, h.once⟩
  · intro serial task htask hhalted
    rcases hcore serial task htask with ⟨old, hold, -, hown, hother⟩
    by_cases hserial : serial = handle.serial
    · rw [hown hserial] at hhalted
      exact nomatch hhalted
    · rw [hother hserial] at hhalted ⊢
      rcases h.running serial old hold hhalted with hrunning | hrunning
      · exact Or.inl hrunning
      · rcases hdue _ (by simp) hrunning with heq | hrunning
        · cases heq
          exact absurd (launched_core t h.toRooted serial old hold).2.symm hserial
        · exact Or.inr hrunning
  · intro tenantId id serial hmem
    rcases h.observers tenantId id serial hmem with ⟨old, hold, hid, htenant, hcause⟩
    rcases hnew serial old hold with ⟨task, htask, hhandle⟩
    refine ⟨task, htask, by rw [hhandle, hid], by rw [hhandle, htenant], ?_⟩
    rw [hhandle]
    rcases hcause with hcause | hcause | hcause
    · exact Or.inl hcause
    · rcases hdue _ (by simp) hcause with heq | hcause
      · cases heq
        exact Or.inr (Or.inr hdetach)
      · exact Or.inr (Or.inl hcause)
    · rcases hdue _ (by simp) hcause with heq | hcause
      · exact nomatch heq
      · exact Or.inr (Or.inr hcause)

/-- Detaching a monitor leaves none of its observers. -/
theorem tended_unsubscribe (handle : MonitorHandle)
    (hdue : ∀ d, d ≠ .none → due d → d = .detach handle ∨ due' d) :
    (t.unsubscribe handle.target.tenantId handle.policyId).Tended due' := by
  have hobservers : ∀ tenantId,
      (t.unsubscribe handle.target.tenantId handle.policyId).fanout.observers tenantId =
        if tenantId = handle.target.tenantId then
          (t.fanout.observers handle.target.tenantId).filter fun o =>
            !decide (o.1 = handle.policyId)
        else t.fanout.observers tenantId := fun tenantId => Fanout.observers_detach _ _ _ _
  refine ⟨⟨h.launched, h.live⟩, ?_, ?_, ?_⟩
  · intro serial task htask hhalted
    refine (h.running serial task htask hhalted).imp_right fun hrunning => ?_
    rcases hdue _ (by simp) hrunning with heq | hrunning
    · exact nomatch heq
    · exact hrunning
  · intro tenantId id serial hmem
    have hold : (id, serial) ∈ t.fanout.observers tenantId ∧
        ¬ (tenantId = handle.target.tenantId ∧ id = handle.policyId) := by
      rw [hobservers] at hmem
      split at hmem
      · rename_i htenant
        rcases List.mem_filter.mp hmem with ⟨hmem, hid⟩
        rw [htenant]
        exact ⟨hmem, fun hboth => by simp [hboth.2] at hid⟩
      · rename_i htenant
        exact ⟨hmem, fun hboth => htenant hboth.1⟩
    rcases h.observers tenantId id serial hold.1 with ⟨task, htask, hid, htenant, hcause⟩
    refine ⟨task, htask, hid, htenant, ?_⟩
    -- An observer that is there because it is due to be detached is the one that has just been.
    rcases hcause with hcause | hcause | hcause
    · exact Or.inl hcause
    · rcases hdue _ (by simp) hcause with heq | hcause
      · exact nomatch heq
      · exact Or.inr (Or.inl hcause)
    · rcases hdue _ (by simp) hcause with heq | hcause
      · cases heq
        exact absurd ⟨htenant.symm, hid.symm⟩ hold.2
      · exact Or.inr (Or.inr hcause)
  · intro tenantId
    rw [hobservers]
    split
    · exact (h.once _).filter _
    · exact h.once tenantId

end Steps

/-- If nothing is owed, no policy has two of anything. -/
theorem exclusive_of_tended (t : MonitorTable) (due : Duty → Prop) (h : t.Tended due)
    (hdue : ∀ d, due d → d = .none) : t.Exclusive := by
  -- What runs is live.
  have hrunning : ∀ serial handle, t.handle? serial = some handle → t.isHalted serial = false →
      t.live.get? handle.policyId = some serial := by
    intro serial handle hhandle hhalted
    rcases Option.map_eq_some_iff.mp hhandle with ⟨task, htask, rfl⟩
    have hcore : t.core? serial = some task.core := by rw [core?, htask]; rfl
    rw [isHalted, htask] at hhalted
    rcases h.running serial task.core hcore hhalted with hlive | hlive
    · exact hlive
    · cases hdue _ hlive
  -- So is what observes.
  have hobserves : ∀ tenantId id serial, (id, serial) ∈ t.fanout.observers tenantId →
      t.live.get? id = some serial ∧
        ∃ task, t.core? serial = some task ∧ task.handle.target.tenantId = tenantId := by
    intro tenantId id serial hmem
    rcases h.observers tenantId id serial hmem with ⟨task, htask, -, htenant, hcause⟩
    refine ⟨?_, task, htask, htenant⟩
    rcases hcause with hcause | hcause | hcause
    · exact hcause
    · cases hdue _ hcause
    · cases hdue _ hcause
  refine ⟨?_, ?_, ?_⟩
  · intro serial serial' handle handle' hhandle hhandle' hhalted hhalted' hid
    have hfirst := hrunning serial handle hhandle hhalted
    rw [hid, hrunning serial' handle' hhandle' hhalted'] at hfirst
    exact (Option.some.inj hfirst).symm
  · intro tenantId tenantId' id serial serial' hmem hmem'
    rcases hobserves tenantId id serial hmem with ⟨hlive, task, htask, htenant⟩
    rcases hobserves tenantId' id serial' hmem' with ⟨hlive', task', htask', htenant'⟩
    rw [hlive] at hlive'
    cases hlive'
    rw [htask] at htask'
    cases htask'
    exact ⟨htenant.symm.trans htenant', rfl⟩
  · intro tenantId
    refine (h.once tenantId).map_on ?_
    rintro ⟨id, serial⟩ hmem ⟨id', serial'⟩ hmem' hid
    have hsame : id = id' := hid
    subst hsame
    have hlive := (hobserves tenantId id serial hmem).1
    rw [(hobserves tenantId id serial' hmem').1] at hlive
    rw [Option.some.inj hlive]

end MonitorTable

end StoragePolicy
