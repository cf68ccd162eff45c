import StoragePolicy.Program
import StoragePolicy.Fanout
import StoragePolicy.Sample.Basic

/-!
# Handles of monitors

A task and its handle share a mailbox. Who tells the task to stop first sets a flag and then gives a
signal: the flag is looked at whenever the task has read a sample, and the signal wakes it if it
waits for one. The two are set in separate steps, and so are a look at the flag and what follows
from it, so that the steps of the task and of others may fall between them.

## Main definitions

* `Mailbox`: What a task and its handle share.
* `Mailbox.Call`, `Mailbox.exec`: The steps on it.
* `Mailbox.stop`, `Mailbox.offer`: Telling a task to stop, and giving it a sample.
-/

namespace StoragePolicy

/-- What a task and its handle share: the samples that have not been read, whether the task was told
    to stop, whether the signal of that has not been taken yet, whether the task has ended, and
    whether nobody holds its handle any more. -/
structure Mailbox where
  queue : List Sample := []
  halted : Bool := false
  signalled : Bool := false
  ended : Bool := false
  closed : Bool := false

namespace Mailbox

/-- A step on a mailbox. -/
inductive Call where
  /-- Sets the flag, and tells whether it was set before. -/
  | raise
  /-- Gives the signal. A signal that has not been taken yet is not given twice. -/
  | signal
  | isHalted
  /-- Queues a sample, and tells whether there is a task that could read it. -/
  | push (sample : Sample)

/-- The type of the reply to a step. -/
def Call.Reply : Call → Type
  | .raise | .isHalted | .push _ => Bool
  | .signal => Unit

/-- The mailbox as the surroundings of a program. -/
abbrev interface : Interface := ⟨Call, Call.Reply⟩

/-- What a step replies, and what it does. -/
def exec : (c : Call) → Mailbox → c.Reply × Mailbox
  | .raise, b => (b.halted, { b with halted := true })
  | .signal, b => ((), { b with signalled := true })
  | .isHalted, b => (b.halted, b)
  | .push sample, b =>
    if b.ended then (false, b) else (true, { b with queue := b.queue ++ [sample] })

/-- Takes a step that always gets its reply. -/
def ask (c : Call) : Program interface c.Reply := .call c .done

/-- Tells a task to stop. Only who is the first to do so gives the signal. -/
def stop : Program interface Unit := do
  let before : Bool ← ask .raise
  if !before then ask .signal

/-- Gives a task a sample. A task that was told to stop takes it without a use for it. -/
def offer (sample : Sample) : Program interface Fanout.Receipt := do
  let halted : Bool ← ask .isHalted
  if halted then return .accepted
  else
    let taken : Bool ← ask (.push sample)
    return if taken then .accepted else .refused

end Mailbox

end StoragePolicy
