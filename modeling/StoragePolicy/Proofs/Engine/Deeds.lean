import StoragePolicy.Proofs.Engine.Running
import StoragePolicy.Proofs.Registry.Pipelines
import StoragePolicy.Proofs.Registry.Records
import StoragePolicy.Proofs.Rule.Parsed

/-!
# What the engine does to its tables

Whatever the engine is asked for, and whatever a monitor does, comes down to a few deeds: a policy
is created, its monitor is started again, its record is marked, its monitor is stopped and its
record marked or deleted, or a sample is queued or read. Between deeds the store and the tables of
monitors fit together. A call of the engine may be in the middle of a deed, so the deeds are the
steps by which the tables are followed, and not the calls.

Whether the counter of ids stays in range is not known in advance. Every id that is taken costs a
call to the storage side or a monitor, so the effort bounds it, and what a run reaches is only
spoken of as long as the effort can be held in a machine word.

## Main definitions

* `PolicyRecord.Describes`: What a record says about its monitor.
* `Session.Sound`: The store and the monitors fit together.
* `Session.Counted`: A sound session whose counter of ids does not exceed the effort.
* `Deed`, `Deed.Effect`: The deeds, and what each does.
* `Session.Path`, `Session.Reaches`: Deeds one after the other, and what a run comes to by them.
* `Session.Works`: Programs that run by deeds.

## Theorems

* `monitors_of_effect`: A deed leaves the monitors as they stand, starts one, or takes one away.
* `sound_of_effect`: A deed keeps a session sound.
* `path_invariant`: What every deed keeps, a path keeps.
* `reaches_trans`, `works_bind`, `works_then`: A run goes by deeds if its parts do.
-/

namespace StoragePolicy

namespace PolicyRecord

/-- What a record says about the monitor that is started from it. -/
structure Describes (r : PolicyRecord) (binding : MonitorBinding) (condition : Condition) :
    Prop where
  binding : Engine.recordedBinding r = .ok binding
  condition : Condition.parse r.conditionText = .ok condition

/-- A record without regard to whether it is alive. -/
def unmarked (r : PolicyRecord) : PolicyRecord := r.marked true

/-- Whether it is alive has no part in what a record says about its monitor. -/
theorem describes_of_unmarked (r r' : PolicyRecord) (binding : MonitorBinding)
    (condition : Condition) (heq : r.unmarked = r'.unmarked) (h : r.Describes binding condition) :
    r'.Describes binding condition := by
  have hr : r.unmarked.Describes binding condition := ⟨h.binding, h.condition⟩
  rw [heq] at hr
  exact ⟨hr.binding, hr.condition⟩

/-- The target of a monitor is that of its record. -/
theorem target_of_describes (r : PolicyRecord) (binding : MonitorBinding) (condition : Condition)
    (h : r.Describes binding condition) : binding.target = r.target := by
  have hbinding := h.binding
  rw [Engine.recordedBinding] at hbinding
  split at hbinding
  · exact nomatch hbinding
  · split at hbinding
    · cases hbinding
      rfl
    · exact nomatch hbinding

/-- The object filter of a binding comes from a rule that has been read. -/
theorem storable_of_recordedBinding (r : PolicyRecord) (binding : MonitorBinding)
    (hbinding : Engine.recordedBinding r = .ok binding) (filter : ObjectFilter)
    (hfilter : binding.objectFilter = some filter) : filter.Storable := by
  rw [Engine.recordedBinding] at hbinding
  split at hbinding
  · exact nomatch hbinding
  · rename_i rule hrule
    split at hbinding
    · cases hbinding
      exact Rule.objectFilter_of_parse r.ruleText rule filter hrule hfilter
    · exact nomatch hbinding

theorem storable_of_describes (r : PolicyRecord) (binding : MonitorBinding)
    (condition : Condition) (h : r.Describes binding condition) (filter : ObjectFilter)
    (hfilter : binding.objectFilter = some filter) : filter.Storable :=
  storable_of_recordedBinding r binding h.binding filter hfilter

end PolicyRecord

/-- A store that does not differ from another in the catalog. -/
def Store.SameCatalog (s t : Store) : Prop :=
  ∀ key, ¬ Registry.Own key → t.get? key = s.get? key

/-- The store and the monitors fit together: every entry and every record can be read, and every
    live policy has a record that describes its monitor. -/
structure Session.Sound (s : Session) : Prop where
  unrefused : s.Open
  ledger : ∃ n, s.store.Ledger n
  legible : s.store.Legible
  filed : s.store.Filed
  readable : ∀ id r, s.store.record? id = some r → ∃ binding condition,
    r.Describes binding condition
  tables : s.monitors.Consistent
  described : ∀ serial task, s.monitors.core? serial = some task →
    ∃ r : PolicyRecord, r.Describes task.binding task.monitor.condition
  matched : ∀ id serial, s.monitors.live.get? id = some serial →
    ∃ r task, s.store.record? id = some r ∧ s.monitors.core? serial = some task ∧
      r.Describes task.binding task.monitor.condition

/-- A sound session whose counter of ids does not exceed the effort. -/
structure Session.Counted (s : Session) : Prop extends Session.Sound s where
  bound : ∃ n, n ≤ s.effort ∧ s.store.Ledger n

/-! ### The deeds -/

/-- What the engine does to its tables. -/
inductive Deed where
  /-- Something that concerns neither records nor monitors. -/
  | pass
  /-- A sample is queued at the monitors of its tenant. -/
  | hear (sample : Sample)
  /-- A task has read what was queued at it. -/
  | read (serial : Nat)
  /-- A record is stored and its monitor started. -/
  | create (r : PolicyRecord)
  /-- The monitor of a record is started again, and the record is alive. -/
  | revive (id : Nat)
  /-- The record of a policy is marked as no longer alive, though its monitor goes on. -/
  | rest (id : Nat)
  /-- The monitor of a policy is stopped, and its record is no longer alive. -/
  | retire (id : Nat)
  /-- The monitor of a policy is stopped, and its record is deleted. -/
  | remove (id : Nat)

/-- What a deed does to records and monitors. -/
def Deed.Effect (s t : Session) : Deed → Prop
  | .pass => s.store.SameRecords t.store ∧ t.monitors = s.monitors
  | .hear sample => s.store.SameRecords t.store ∧ t.monitors = (s.monitors.deliver sample).2
  | .read serial => s.store.SameRecords t.store ∧ s.monitors.Agrees t.monitors ∧
      ∀ other, other ≠ serial → t.monitors.tasks.get? other = s.monitors.tasks.get? other
  | .create r => s.store.record? r.id = none ∧ r.Storable ∧ r.alive = true ∧
      s.store.Refiled t.store r.id (some r) ∧
      ∃ binding condition, r.Describes binding condition ∧
        t.monitors = s.monitors.started r.id condition binding
  | .revive id => s.monitors.isLive id = false ∧
      ∃ r, s.store.record? id = some r ∧
        s.store.Refiled t.store id (some (r.marked true)) ∧
        ∃ binding condition, r.Describes binding condition ∧
          t.monitors = s.monitors.started id condition binding
  | .rest id =>
      s.store.Refiled t.store id ((s.store.record? id).map fun r => r.marked false) ∧
        t.monitors = s.monitors
  | .retire id =>
      s.store.Refiled t.store id ((s.store.record? id).map fun r => r.marked false) ∧
        t.monitors = s.monitors.without id
  | .remove id => s.store.Refiled t.store id none ∧ t.monitors = s.monitors.without id

/-- The record of an id after a deed. -/
def Deed.recordAfter (s : Session) (id : Nat) : Deed → Option PolicyRecord
  | .create r => if id = r.id then some r else s.store.record? id
  | .revive own =>
    if id = own then (s.store.record? own).map fun r => r.marked true else s.store.record? id
  | .rest own | .retire own =>
    if id = own then (s.store.record? own).map fun r => r.marked false else s.store.record? id
  | .remove own => if id = own then none else s.store.record? id
  | .pass | .hear _ | .read _ => s.store.record? id

namespace Session

/-- A deed is done. The catalog is not touched. -/
structure Does (deed : Deed) (s t : Session) : Prop where
  catalog : s.store.SameCatalog t.store
  effect : deed.Effect s t

/-- Deeds of some kind done one after the other, with the sessions between them sound. -/
inductive Path (kind : Deed → Prop) : Session → Session → Prop where
  | refl (s : Session) : Path kind s s
  | step (deed : Deed) (s t u : Session) (hkind : kind deed) (hdoes : Does deed s t)
      (hsound : t.Sound) (hrest : Path kind t u) : Path kind s u

/-- What a part of a run comes to by deeds of some kind, as long as the effort can be held in a
    machine word. -/
structure Reaches (kind : Deed → Prop) (s t : Session) : Prop where
  effort : s.effort ≤ t.effort
  path : t.effort < Number.maxWord → s.Counted → t.Counted ∧ Path kind s t

end Session

/-! ### A deed keeps a session sound -/

namespace Session

section Sound

variable (s t : Session)

theorem storable_mark_of_record? (h : s.Sound) (id : Nat) (alive : Bool) (r : PolicyRecord)
    (hr : ((s.store.record? id).map fun r => r.marked alive) = some r) :
    r.Storable ∧ r.id = id := by
  rw [Option.map_eq_some_iff] at hr
  rcases hr with ⟨r', hr', rfl⟩
  rcases Store.get?_of_record? _ h.filed id r' hr' with ⟨-, hid, hstorable⟩
  exact ⟨r'.storable_marked alive hstorable, hid⟩

/-- The table of records after a deed: one line may have changed. -/
theorem record?_of_effect (h : s.Sound) (deed : Deed) (heffect : deed.Effect s t) (id : Nat) :
    t.store.record? id = deed.recordAfter s id := by
  -- A deed refiles at most one line, and what it files is storable.
  cases deed with
  | pass => exact Store.record?_sameRecords _ _ heffect.1 id
  | hear sample => exact Store.record?_sameRecords _ _ heffect.1 id
  | read serial => exact Store.record?_sameRecords _ _ heffect.1 id
  | create r =>
    rcases heffect with ⟨-, hstorable, -, hstore, -⟩
    refine Store.record?_refiled _ _ _ _ _ hstore ?_
    intro r' hr'
    cases hr'
    exact hstorable
  | revive own =>
    rcases heffect with ⟨-, r, hr, hstore, -⟩
    rw [Deed.recordAfter, hr]
    refine Store.record?_refiled _ _ _ _ _ hstore ?_
    intro r' hr'
    cases hr'
    exact r.storable_marked true (Store.get?_of_record? _ h.filed own r hr).2.2
  | rest own =>
    exact Store.record?_refiled _ _ _ _ _ heffect.1 fun r hr =>
      (storable_mark_of_record? s h own false r hr).1
  | retire own =>
    exact Store.record?_refiled _ _ _ _ _ heffect.1 fun r hr =>
      (storable_mark_of_record? s h own false r hr).1
  | remove own => exact Store.record?_refiled _ _ _ _ _ heffect.1 fun r hr => nomatch hr

theorem filed_of_effect (h : s.Sound) (deed : Deed) (heffect : deed.Effect s t) :
    t.store.Filed := by
  cases deed with
  | pass => exact Store.filed_sameRecords _ h.filed _ heffect.1
  | hear sample => exact Store.filed_sameRecords _ h.filed _ heffect.1
  | read serial => exact Store.filed_sameRecords _ h.filed _ heffect.1
  | create r =>
    rcases heffect with ⟨-, hstorable, -, hstore, -⟩
    refine Store.filed_refiled _ h.filed _ _ _ hstore ?_
    intro r' hr'
    cases hr'
    exact ⟨hstorable, rfl⟩
  | revive own =>
    rcases heffect with ⟨-, r, hr, hstore, -⟩
    refine Store.filed_refiled _ h.filed _ _ _ hstore ?_
    intro r' hr'
    cases hr'
    rcases Store.get?_of_record? _ h.filed own r hr with ⟨-, hid, hstorable⟩
    exact ⟨r.storable_marked true hstorable, hid⟩
  | rest own =>
    exact Store.filed_refiled _ h.filed _ _ _ heffect.1 (storable_mark_of_record? s h own false)
  | retire own =>
    exact Store.filed_refiled _ h.filed _ _ _ heffect.1 (storable_mark_of_record? s h own false)
  | remove own => exact Store.filed_refiled _ h.filed _ _ _ heffect.1 fun r hr => nomatch hr

/-- A record after a deed is an old one, up to its mark, or the one that was created. -/
theorem old_of_effect (h : s.Sound) (deed : Deed) (heffect : deed.Effect s t) (id : Nat)
    (r : PolicyRecord) (hr : t.store.record? id = some r) :
    (∃ old, s.store.record? id = some old ∧ old.unmarked = r.unmarked) ∨
      (deed = .create r ∧ r.id = id) := by
  rw [record?_of_effect s t h deed heffect] at hr
  have hsame : s.store.record? id = some r →
      ∃ old, s.store.record? id = some old ∧ old.unmarked = r.unmarked := fun h => ⟨r, h, rfl⟩
  have hmark : ∀ own alive, (if id = own then
      (s.store.record? own).map fun r => r.marked alive else s.store.record? id) = some r →
      ∃ old, s.store.record? id = some old ∧ old.unmarked = r.unmarked := by
    intro own alive hif
    -- A deed that marks a record changes nothing of it but the mark.
    by_cases hid : id = own
    · rw [if_pos hid, Option.map_eq_some_iff] at hif
      rcases hif with ⟨old, hold, rfl⟩
      exact ⟨old, hid ▸ hold, rfl⟩
    · rw [if_neg hid] at hif
      exact hsame hif
  cases deed with
  | pass => exact Or.inl (hsame hr)
  | hear sample => exact Or.inl (hsame hr)
  | read serial => exact Or.inl (hsame hr)
  | create new =>
    dsimp only [Deed.recordAfter] at hr
    by_cases hid : id = new.id
    · rw [if_pos hid] at hr
      cases hr
      exact Or.inr ⟨rfl, hid.symm⟩
    · rw [if_neg hid] at hr
      exact Or.inl (hsame hr)
  | revive own => exact Or.inl (hmark own true hr)
  | rest own => exact Or.inl (hmark own false hr)
  | retire own => exact Or.inl (hmark own false hr)
  | remove own =>
    dsimp only [Deed.recordAfter] at hr
    by_cases hid : id = own
    · rw [if_pos hid] at hr
      exact nomatch hr
    · rw [if_neg hid] at hr
      exact Or.inl (hsame hr)

/-- A policy without a record is not live. -/
theorem not_isLive_of_record?_eq_none (h : s.Sound) (id : Nat)
    (hr : s.store.record? id = none) : s.monitors.isLive id = false := by
  rw [MonitorTable.isLive_eq_false_iff]
  cases hlive : s.monitors.live.get? id with
  | none => rfl
  | some serial =>
    rcases h.matched id serial hlive with ⟨r, task, hrecord, -⟩
    rw [hr] at hrecord
    exact nomatch hrecord

/-- The observers are the live monitors, each under the tenant of its record. -/
theorem mem_observers_iff (h : s.Sound) (tenantId : String) (id serial : Nat) :
    (id, serial) ∈ s.monitors.fanout.observers tenantId ↔
      s.monitors.live.get? id = some serial ∧
        ∃ r, s.store.record? id = some r ∧ r.target.tenantId = tenantId := by
  rw [h.tables.observers]
  refine and_congr_right fun hserial => ?_
  rcases h.matched id serial hserial with ⟨r, task, hr, htask, hdescribes⟩
  have htarget : task.handle.target = r.target := by
    rw [(h.tables.launched serial task htask).2.target,
      PolicyRecord.target_of_describes r _ _ hdescribes]
  simp only [hr, htask, Option.some.injEq, exists_eq_left', htarget]

/-- What a deed does to the monitors: it changes at most what they have read and have to read, or it
    starts one for a record that is alive, or it stops one. -/
theorem monitors_of_effect (h : s.Sound) (deed : Deed) (heffect : deed.Effect s t) :
    (s.monitors.Agrees t.monitors ∧ ∀ id, deed ≠ .retire id ∧ deed ≠ .remove id) ∨
      (∃ r binding condition, s.monitors.isLive r.id = false ∧ t.store.record? r.id = some r ∧
        r.alive = true ∧ r.Describes binding condition ∧
        t.monitors = s.monitors.started r.id condition binding ∧
        ∀ id, deed ≠ .retire id ∧ deed ≠ .remove id) ∨
      ∃ own, (deed = .retire own ∨ deed = .remove own) ∧ t.monitors = s.monitors.without own := by
  have hrecord := record?_of_effect s t h deed heffect
  cases deed with
  | pass =>
    rw [heffect.2]
    exact Or.inl ⟨MonitorTable.agrees_refl _, fun id => by simp⟩
  | hear sample =>
    rw [heffect.2]
    exact Or.inl ⟨MonitorTable.agrees_deliver _ sample, fun id => by simp⟩
  | read serial => exact Or.inl ⟨heffect.2.1, fun id => by simp⟩
  | create r =>
    rcases heffect with ⟨hnone, -, halive, -, binding, condition, hdescribes, hmonitors⟩
    refine Or.inr (Or.inl ⟨r, binding, condition, not_isLive_of_record?_eq_none s h _ hnone, ?_,
      halive, hdescribes, hmonitors, fun id => by simp⟩)
    exact (hrecord r.id).trans (if_pos rfl)
  | revive own =>
    rcases heffect with ⟨hown, r, hr, -, binding, condition, hdescribes, hmonitors⟩
    -- The mark is part neither of the id of a record nor of what it describes.
    have hid : (r.marked true).id = own := (Store.get?_of_record? _ h.filed own r hr).2.1
    refine Or.inr (Or.inl ⟨r.marked true, binding, condition, hid ▸ hown, ?_, rfl,
      PolicyRecord.describes_of_unmarked r _ _ _ rfl hdescribes, hid ▸ hmonitors,
      fun id => by simp⟩)
    rw [hid, hrecord own, Deed.recordAfter, if_pos rfl, hr]
    rfl
  | rest own =>
    rw [heffect.2]
    exact Or.inl ⟨MonitorTable.agrees_refl _, fun id => by simp⟩
  | retire own => exact Or.inr (Or.inr ⟨own, Or.inl rfl, heffect.2⟩)
  | remove own => exact Or.inr (Or.inr ⟨own, Or.inr rfl, heffect.2⟩)

theorem tables_of_effect (h : s.Sound) (deed : Deed) (heffect : deed.Effect s t) :
    t.monitors.Consistent := by
  rcases monitors_of_effect s t h deed heffect with
    ⟨hagrees, -⟩ | ⟨r, binding, condition, hlive, -, -, -, hmonitors, -⟩ | ⟨own, -, hmonitors⟩
  · exact MonitorTable.consistent_of_agrees _ _ hagrees h.tables
  · rw [hmonitors]
    exact MonitorTable.consistent_started _ _ _ _ h.tables hlive
  · rw [hmonitors]
    exact MonitorTable.consistent_without _ _ h.tables

/-- The live monitors after a deed: they were live before with the same task, or the deed has
    started them. -/
theorem live_of_effect (h : s.Sound) (deed : Deed) (heffect : deed.Effect s t) (id serial : Nat)
    (hlive : t.monitors.live.get? id = some serial) :
    (s.monitors.live.get? id = some serial ∧
        t.monitors.core? serial = s.monitors.core? serial ∧ deed ≠ .retire id ∧
        deed ≠ .remove id) ∨
      ∃ r binding condition, t.store.record? id = some r ∧ r.alive = true ∧
        r.Describes binding condition ∧
        t.monitors.core? serial = some (s.monitors.newTask id condition binding) := by
  rcases monitors_of_effect s t h deed heffect with
    ⟨hagrees, hkind⟩ | ⟨r, binding, condition, -, hr, halive, hdescribes, hmonitors, hkind⟩ |
    ⟨own, hdeed, hmonitors⟩
  · rw [hagrees.live] at hlive
    exact Or.inl ⟨hlive, hagrees.core serial, hkind id⟩
  · rw [hmonitors, MonitorTable.live_started] at hlive
    rw [hmonitors, MonitorTable.core?_started]
    by_cases hid : id = r.id
    · rw [if_pos hid] at hlive
      cases hlive
      exact Or.inr ⟨r, binding, condition, hid ▸ hr, halive, hdescribes, by rw [if_pos rfl, hid]⟩
    · -- The new task takes the next serial number, which no task has had before.
      rw [if_neg hid] at hlive
      rcases h.tables.live id serial hlive with ⟨task, htask, -, -⟩
      have hlt := (h.tables.launched serial task htask).1
      exact Or.inl ⟨hlive, if_neg (by omega), hkind id⟩
  · rw [hmonitors, MonitorTable.live_without] at hlive
    by_cases hid : id = own
    · rw [if_pos hid] at hlive
      exact nomatch hlive
    · rw [if_neg hid] at hlive
      refine Or.inl ⟨hlive, ?_, ?_⟩
      · rw [hmonitors]
        refine MonitorTable.core?_without _ _ h.tables serial fun hown => ?_
        rcases h.tables.live id serial hlive with ⟨task, htask, -, hpolicy⟩
        rcases h.tables.live own serial hown with ⟨task', htask', -, hpolicy'⟩
        rw [htask] at htask'
        cases htask'
        exact hid (hpolicy.symm.trans hpolicy')
      · rcases hdeed with rfl | rfl <;> simp [Ne.symm hid]

/-- Every task was started from a record, whatever has become of that. -/
theorem described_of_effect (h : s.Sound) (deed : Deed) (heffect : deed.Effect s t) (serial : Nat)
    (task : MonitorTask) (htask : t.monitors.core? serial = some task) :
    ∃ r : PolicyRecord, r.Describes task.binding task.monitor.condition := by
  rcases monitors_of_effect s t h deed heffect with
    ⟨hagrees, -⟩ | ⟨r, binding, condition, -, -, -, hdescribes, hmonitors, -⟩ |
    ⟨own, -, hmonitors⟩
  · rw [hagrees.core] at htask
    exact h.described serial task htask
  · rw [hmonitors, MonitorTable.core?_started] at htask
    split at htask
    · cases htask
      exact ⟨r, hdescribes⟩
    · exact h.described serial task htask
  · rw [hmonitors] at htask
    rcases MonitorTable.core?_of_without _ own serial task htask with ⟨old, halted, hold, rfl⟩
    exact h.described serial old hold

/-- A record that is not taken away is marked at most. -/
theorem kept_of_effect (h : s.Sound) (deed : Deed) (heffect : deed.Effect s t) (id : Nat)
    (r : PolicyRecord) (hr : s.store.record? id = some r) (hremove : deed ≠ .remove id) :
    ∃ r', t.store.record? id = some r' ∧ r.unmarked = r'.unmarked := by
  have hmark : ∀ own alive, ∃ r', (if id = own then
      (s.store.record? own).map fun r => r.marked alive else s.store.record? id) =
      some r' ∧ r.unmarked = r'.unmarked := by
    intro own alive
    by_cases hid : id = own
    · rw [if_pos hid, ← hid, hr]
      exact ⟨_, rfl, rfl⟩
    · rw [if_neg hid]
      exact ⟨r, hr, rfl⟩
  rw [record?_of_effect s t h deed heffect id]
  cases deed with
  | pass => exact ⟨r, hr, rfl⟩
  | hear sample => exact ⟨r, hr, rfl⟩
  | read serial => exact ⟨r, hr, rfl⟩
  | create new =>
    -- A record is created only under an id that has none.
    have hid : id ≠ new.id := by
      intro hid
      rw [hid, heffect.1] at hr
      exact nomatch hr
    exact ⟨r, (if_neg hid).trans hr, rfl⟩
  | revive own => exact hmark own true
  | rest own => exact hmark own false
  | retire own => exact hmark own false
  | remove own =>
    have hid : id ≠ own := by
      rintro rfl
      exact hremove rfl
    exact ⟨r, (if_neg hid).trans hr, rfl⟩

/-- A deed keeps a session sound, if ledger and pipelines are in order after it. -/
theorem sound_of_effect (h : s.Sound) (deed : Deed) (heffect : deed.Effect s t) (hopen : t.Open)
    (hlegible : t.store.Legible) (hledger : ∃ n, t.store.Ledger n) : t.Sound where
  unrefused := hopen
  ledger := hledger
  legible := hlegible
  filed := filed_of_effect s t h deed heffect
  readable := by
    intro id r hr
    rcases old_of_effect s t h deed heffect id r hr with ⟨old, hold, heq⟩ | ⟨rfl, -⟩
    · rcases h.readable id old hold with ⟨binding, condition, hdescribes⟩
      exact ⟨binding, condition, PolicyRecord.describes_of_unmarked old r _ _ heq hdescribes⟩
    · rcases heffect with ⟨-, -, -, -, binding, condition, hdescribes, -⟩
      exact ⟨binding, condition, hdescribes⟩
  tables := tables_of_effect s t h deed heffect
  described := described_of_effect s t h deed heffect
  matched := by
    intro id serial hlive
    rcases live_of_effect s t h deed heffect id serial hlive with
      ⟨hold, hcore, hretire, hremove⟩ | ⟨r, binding, condition, hr, -, hdescribes, hcore⟩
    · rcases h.matched id serial hold with ⟨r, task, hr, htask, hdescribes⟩
      rcases kept_of_effect s t h deed heffect id r hr hremove with ⟨r', hr', heq⟩
      exact ⟨r', task, hr', hcore.trans htask,
        PolicyRecord.describes_of_unmarked r r' _ _ heq hdescribes⟩
    · exact ⟨r, _, hr, hcore, hdescribes⟩

theorem counted_of_effect (h : s.Sound) (deed : Deed) (heffect : deed.Effect s t) (hopen : t.Open)
    (hlegible : t.store.Legible) (hbound : ∃ n, n ≤ t.effort ∧ t.store.Ledger n) : t.Counted := by
  refine ⟨sound_of_effect s t h deed heffect hopen hlegible ?_, hbound⟩
  rcases hbound with ⟨n, -, hledger⟩
  exact ⟨n, hledger⟩

end Sound

/-! ### Deeds one after the other -/

section Path

variable {kind : Deed → Prop}

theorem path_trans (s t u : Session) (h : Path kind s t) (h' : Path kind t u) :
    Path kind s u := by
  induction h with
  | refl s => exact h'
  | step deed s t u hkind hdoes hsound hrest ih =>
    exact .step deed s t _ hkind hdoes hsound (ih h')

theorem path_mono (other : Deed → Prop) (s t : Session) (h : Path kind s t)
    (hkind : ∀ deed, kind deed → other deed) : Path other s t := by
  induction h with
  | refl s => exact .refl s
  | step deed s t u hdeed hdoes hsound hrest ih =>
    exact .step deed s t u (hkind deed hdeed) hdoes hsound ih

/-- What every deed of a kind keeps, a path of such deeds keeps. -/
theorem path_invariant (inv : Session → Prop)
    (hstep : ∀ deed s t, kind deed → s.Sound → t.Sound → Does deed s t → inv s → inv t)
    (s t : Session) (h : Path kind s t) (hs : s.Sound) (hinv : inv s) : inv t := by
  induction h with
  | refl s => exact hinv
  | step deed s t u hkind hdoes hsound hrest ih =>
    exact ih hsound (hstep deed s t hkind hs hsound hdoes hinv)

theorem reaches_refl (s : Session) : Reaches kind s s :=
  ⟨Nat.le_refl _, fun _ hs => ⟨hs, .refl s⟩⟩

theorem reaches_trans (s t u : Session) (h : Reaches kind s t) (h' : Reaches kind t u) :
    Reaches kind s u where
  effort := Nat.le_trans h.effort h'.effort
  path := by
    intro heffort hs
    rcases h.path (Nat.lt_of_le_of_lt h'.effort heffort) hs with ⟨ht, hpath⟩
    rcases h'.path heffort ht with ⟨hu, hpath'⟩
    exact ⟨hu, path_trans s t u hpath hpath'⟩

theorem reaches_mono (other : Deed → Prop) (s t : Session) (h : Reaches kind s t)
    (hkind : ∀ deed, kind deed → other deed) : Reaches other s t where
  effort := h.effort
  path := by
    intro heffort hs
    rcases h.path heffort hs with ⟨ht, hpath⟩
    exact ⟨ht, path_mono other s t hpath hkind⟩

/-- What is reached by one deed. -/
theorem reaches_of_does (s t : Session) (heffort : s.effort ≤ t.effort)
    (h : t.effort < Number.maxWord → s.Counted → ∃ deed, kind deed ∧ Does deed s t ∧ t.Open ∧
      t.store.Legible ∧ ∃ n, n ≤ t.effort ∧ t.store.Ledger n) : Reaches kind s t where
  effort := heffort
  path := by
    intro hle hs
    rcases h hle hs with ⟨deed, hkind, hdoes, hopen, hlegible, hledger⟩
    have ht := counted_of_effect s t hs.toSound deed hdoes.effect hopen hlegible hledger
    exact ⟨ht, .step deed s t t hkind hdoes ht.toSound (.refl t)⟩

end Path

/-! ### Programs -/

/-- A program that comes to what it comes to by deeds of some kind, wherever it is run. -/
def Works {α : Type} (kind : Deed → Prop) (p : Program Engine.interface α) : Prop :=
  Goes (Reaches kind) p

section Works

variable {α β : Type} {kind : Deed → Prop}

theorem works_pure (a : α) : Works kind (pure a) := reaches_refl

theorem works_bind (p : Program Engine.interface α) (f : α → Program Engine.interface β)
    (hp : Works kind p) (hf : ∀ a, Works kind (f a)) : Works kind (p >>= f) :=
  goes_bind _ reaches_trans p f hp hf

theorem works_then (p : Engine α) (f : α → Engine β) (hp : Works kind p.run)
    (hf : ∀ a, Works kind (f a).run) : Works kind (p >>= f).run :=
  goes_then _ reaches_refl reaches_trans p f hp hf

theorem compositional_works : Engine.Compositional fun _ p => Works kind p :=
  compositional_goes _ reaches_refl reaches_trans

theorem works_throw (e : EngineError) : Works kind (throw e : Engine α).run := reaches_refl

theorem works_isHalted (serial : Nat) : Works kind (Engine.ask (.isHalted serial)) := reaches_refl

end Works

end Session

end StoragePolicy
