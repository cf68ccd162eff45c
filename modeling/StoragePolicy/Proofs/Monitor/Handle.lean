import StoragePolicy.Monitor.Handle
import StoragePolicy.Proofs.Monitor.Table

/-!
# Handles and the table of monitors

The table of monitors stops a task, and queues a sample at it, in one piece. It does what the steps
on the mailbox of the task do if nobody else takes a step between them.

## Main definitions

* `Mailbox.Mirrors`: A mailbox says of a task what the table says.

## Theorems

* `run_stop`, `run_offer`: The steps in one piece.
* `mirrors_halt`, `mirrors_enqueue`: The table does the same.
-/

namespace StoragePolicy

namespace Mailbox

/-- A mailbox says of a task what the table says. -/
structure Mirrors (b : Mailbox) (task : MonitorTask) : Prop where
  queue : b.queue = task.queue
  halted : b.halted = task.halted
  ended : b.ended = task.ended

theorem run_stop (b : Mailbox) : (stop.run exec b).2 =
    { b with halted := true, signalled := b.signalled || !b.halted } := by
  rcases b with ⟨queue, halted, signalled, ended, closed⟩
  cases halted with
  | false => cases signalled <;> rfl
  | true => cases signalled <;> rfl

theorem run_offer (b : Mailbox) (sample : Sample) : (offer sample).run exec b =
    if b.halted then (.accepted, b)
    else if b.ended then (.refused, b)
    else (.accepted, { b with queue := b.queue ++ [sample] }) := by
  rcases b with ⟨queue, halted, signalled, ended, closed⟩
  cases halted with
  | true => rfl
  | false => cases ended <;> rfl

section Mirrors

variable (t : MonitorTable) (serial : Nat) (task : MonitorTask) (b : Mailbox)
  (htask : t.tasks.get? serial = some task) (h : b.Mirrors task)

include htask h

/-- The table tells a task to stop in one piece. -/
theorem mirrors_halt : ∃ task', (t.halt serial).tasks.get? serial = some task' ∧
    (stop.run exec b).2.Mirrors task' := by
  refine ⟨{ task with halted := true }, ?_, ?_⟩
  · rw [MonitorTable.halt, Dict.get?_adjust, if_pos rfl, htask]
    rfl
  · rw [run_stop]
    exact ⟨h.queue, rfl, h.ended⟩

/-- The table queues a sample in one piece. -/
theorem mirrors_enqueue (sample : Sample) :
    (MonitorTable.enqueue sample serial t).1 = ((offer sample).run exec b).1 ∧
      ∃ task', (MonitorTable.enqueue sample serial t).2.tasks.get? serial = some task' ∧
        ((offer sample).run exec b).2.Mirrors task' := by
  rw [run_offer, MonitorTable.enqueue, htask]
  dsimp only
  by_cases hhalted : task.halted = true
  · rw [if_pos hhalted, if_pos (h.halted.trans hhalted)]
    exact ⟨rfl, task, htask, h⟩
  · have hrunning : ¬ b.halted = true := by rwa [h.halted]
    rw [if_neg hhalted, if_neg hrunning]
    by_cases hended : task.ended = true
    · rw [if_pos hended, if_pos (h.ended.trans hended)]
      exact ⟨rfl, task, htask, h⟩
    · have hthere : ¬ b.ended = true := by rwa [h.ended]
      rw [if_neg hended, if_neg hthere]
      refine ⟨rfl, { task with queue := task.queue ++ [sample] }, ?_, ?_⟩
      · rw [Dict.get?_insert, if_pos rfl]
      · exact ⟨congrArg (· ++ [sample]) h.queue, h.halted, h.ended⟩

end Mirrors

end Mailbox

end StoragePolicy
