import StoragePolicy.Engine.Loop
import StoragePolicy.Proofs.Engine.Firing
import StoragePolicy.Proofs.Monitor.Handle

/-!
# A task and those who hold its handle

A task runs step by step, and any number of others work on its handle: they tell it to stop, or give
it samples. What the surroundings answer to the calls of the task is left open, so that whatever
else goes on is covered.

What a task may still do once the flag is set is told by its phase alone: a task that has not fired
yet finds the flag when it has received a sample. So what may still come is counted off along its
steps. The same goes for what a task does at all, like retiring its policy.

## Main definitions

* `Station`: A task with its mailbox, and others that work on its handle.
* `Station.step`, `Station.run`: One step, and a schedule of steps with what is seen of the task.
* `Station.Advance`: How a task gets from one phase to the next.

## Theorems

* `advance_own`: What a step of a task can be.
* `countP_run`: What may still come is counted off.
* `finishes_run`, `begins_run`, `receives_run`, `successes_run`, `retires_run`: What that is.
* `begins_not_mem`: Once the flag is set, no action begins after a sample has been received.
* `queue_run`: Samples are received in the order in which they came.
-/

namespace StoragePolicy

open Engine (Phase Event)

/-- What others do with a handle. -/
inductive Handling where
  | stop
  | offer (sample : Sample)

/-- The program of it. -/
def Handling.program : Handling → Program Mailbox.interface Unit
  | .stop => Mailbox.stop
  | .offer sample => discard (Mailbox.offer sample)

/-- A task with its mailbox, and others that work on its handle, all at some point of their
    programs. -/
structure Station where
  mailbox : Mailbox
  phase : Phase
  others : List (Program Mailbox.interface Unit)

namespace Station

/-- Whose step is next. -/
inductive Move where
  /-- The task takes its next step; should that be a call, this is what the surroundings answer. -/
  | own (answer : (c : Engine.Call) → c.Reply)
  | other (i : Nat)
  /-- The last one who holds the handle gives it up. -/
  | close

/-- Whether the task takes its next step. -/
def Move.IsOwn : Move → Prop
  | .own _ => True
  | _ => False

/-- A task that waits, with samples that are there already. -/
def start (m : Monitor) (queue : List Sample) (handlings : List Handling) : Station :=
  { mailbox := { queue }, phase := .waiting m, others := handlings.map Handling.program }

section Step

variable (settings : Engine.Settings) (handle : MonitorHandle) (binding : MonitorBinding)

/-- What a call of the task is answered: the flag is its own, the rest is up to the surroundings. -/
def reply (b : Mailbox) (answer : (c : Engine.Call) → c.Reply) : (c : Engine.Call) → c.Reply
  | .isHalted serial => if serial = handle.serial then b.halted else answer (.isHalted serial)
  | c => answer c

/-- What a call of the task does to its mailbox: it may tell itself to stop. -/
def effect (b : Mailbox) : Engine.Call → Mailbox
  | .halt serial => if serial = handle.serial then (Mailbox.stop.run Mailbox.exec b).2 else b
  | _ => b

/-- The task takes the signal or a sample. If there is neither, it waits on, unless nobody holds its
    handle any more. -/
def take (x : Station) (m : Monitor) : Option Event × Station :=
  if x.mailbox.signalled then
    (none, { x with mailbox := { x.mailbox with signalled := false }, phase := .leaving m })
  else
    match x.mailbox.queue with
    | sample :: queue =>
      (some (.receives sample),
        { x with mailbox := { x.mailbox with queue }, phase := .received m sample })
    | [] => if x.mailbox.closed then (none, { x with phase := .leaving m }) else (none, x)

/-- The task takes its next step. -/
def own (answer : (c : Engine.Call) → c.Reply) (x : Station) : Option Event × Station :=
  match x.phase.step settings handle binding with
  | .take m => x.take m
  | .move event next =>
    (event,
      { x with
        mailbox := { x.mailbox with ended := x.mailbox.ended || event = some .ends }
        phase := next })
  | .ask c next =>
    (none,
      { x with
        mailbox := effect handle x.mailbox c
        phase := next (reply handle x.mailbox answer c) })
  | .none => (none, x)

/-- One of the others takes its next step. -/
def other (i : Nat) (x : Station) : Station :=
  match x.others[i]? with
  | some (.call c next) =>
    let (r, mailbox) := Mailbox.exec c x.mailbox
    { x with mailbox, others := x.others.set i (next r) }
  | _ => x

/-- One step, and what is seen of the task. -/
def step : Move → Station → Option Event × Station
  | .own answer, x => x.own settings handle binding answer
  | .other i, x => (none, x.other i)
  | .close, x => (none, { x with mailbox := { x.mailbox with closed := true } })

/-- A schedule of steps, and what is seen of the task in order. -/
def run : List Move → Station → List Event × Station
  | [], x => ([], x)
  | move :: moves, x =>
    let (event, x) := x.step settings handle binding move
    let (events, x) := run moves x
    (event.toList ++ events, x)

/-- What steps without end lead to, after some of them. -/
def after (moves : Nat → Move) (x : Station) : Nat → Station
  | 0 => x
  | n + 1 => ((after moves x n).step settings handle binding (moves n)).2

end Step

/-- What is left of telling a task to stop between the two steps. -/
def signalling : Program Mailbox.interface Unit := .call .signal .done

/-- One of the others has told the task to stop and has returned. -/
def Returned (handlings : List Handling) (x : Station) : Prop :=
  ∃ i : Nat, handlings[i]? = some .stop ∧
    x.others[i]? = some (.done () : Program Mailbox.interface Unit)

/-- No call that tells the task to stop stands between its two steps. -/
def Settled (x : Station) : Prop := ∀ i : Nat, x.others[i]? ≠ some signalling

/-- The task has ended. -/
def Ended (x : Station) : Prop := ∃ m, x.phase = .ended m

/-- The samples that the task has received, in order. -/
def received (events : List Event) : List Sample :=
  events.filterMap fun
    | .receives sample => some sample
    | _ => none

/-! ### What a step does -/

section Cases

variable (settings : Engine.Settings) (handle : MonitorHandle) (binding : MonitorBinding)

theorem run_cons (move : Move) (moves : List Move) (x : Station) :
    run settings handle binding (move :: moves) x =
      ((x.step settings handle binding move).1.toList ++
          (run settings handle binding moves (x.step settings handle binding move).2).1,
        (run settings handle binding moves (x.step settings handle binding move).2).2) := rfl

theorem halted_exec (c : Mailbox.Call) (b : Mailbox) (h : b.halted = true) :
    (Mailbox.exec c b).2.halted = true := by
  cases c with
  | raise => rfl
  | signal => exact h
  | isHalted => exact h
  | push sample =>
    rw [Mailbox.exec]
    split <;> exact h

theorem phase_other (i : Nat) (x : Station) : (x.other i).phase = x.phase := by
  rw [other]
  split <;> rfl

/-- Whatever is done, the flag stays set. -/
theorem halted_step (move : Move) (x : Station) (h : x.mailbox.halted = true) :
    (x.step settings handle binding move).2.mailbox.halted = true := by
  cases move with
  | own answer =>
    rw [step, own]
    cases x.phase.step settings handle binding with
    | take m =>
      dsimp only
      rw [take]
      split
      · exact h
      · split
        · exact h
        · split <;> exact h
    | move event next => exact h
    | none => exact h
    | ask c next =>
      dsimp only
      -- A task that retires its policy may tell itself to stop.
      cases c with
      | halt serial =>
        rw [effect]
        split
        · rw [Mailbox.run_stop]
        · exact h
      | _ => exact h
  | other i =>
    rw [step, other]
    split
    · exact halted_exec _ _ h
    · exact h
  | close => exact h

theorem halted_run (moves : List Move) (x : Station) (h : x.mailbox.halted = true) :
    (run settings handle binding moves x).2.mailbox.halted = true := by
  induction moves generalizing x with
  | nil => exact h
  | cons move moves ih => exact ih _ (halted_step settings handle binding move x h)

/-- Only the task itself gets any further, and all that is seen is what it does. -/
theorem step_of_not_own (move : Move) (x : Station) (h : ¬ move.IsOwn) :
    (x.step settings handle binding move).1 = none ∧
      (x.step settings handle binding move).2.phase = x.phase := by
  cases move with
  | own answer => exact absurd trivial h
  | other i => exact ⟨rfl, phase_other i x⟩
  | close => exact ⟨rfl, rfl⟩

end Cases

/-! ### How a task advances -/

/-- How a task gets from one phase to the next, and what is seen of it, as far as it depends on its
    mailbox. -/
inductive Advance (b : Mailbox) : Phase → Option Event → Phase → Prop where
  | wait (m : Monitor) (h : b.signalled = false) : Advance b (.waiting m) none (.waiting m)
  | wake (m : Monitor) : Advance b (.waiting m) none (.leaving m)
  | receive (m : Monitor) (sample : Sample) (h : b.signalled = false) :
    Advance b (.waiting m) (some (.receives sample)) (.received m sample)
  | heed (m : Monitor) (sample : Sample) (h : b.halted = true) :
    Advance b (.received m sample) none (.leaving m)
  | clear (m : Monitor) (sample : Sample) (h : b.halted = false) :
    Advance b (.received m sample) none (.cleared m sample)
  | pass (m m' : Monitor) (sample : Sample) (hkind : m'.kind = m.kind) :
    Advance b (.cleared m sample) none (.waiting m')
  | fire (m m' : Monitor) (sample : Sample) (hkind : m'.kind = m.kind) :
    Advance b (.cleared m sample) none (.fired m')
  | begin (m : Monitor) (p : Program Engine.interface (Except EngineError Engine.Outcome)) :
    Advance b (.fired m) (some .begins) (.acting m p)
  | act (m : Monitor) (c : Engine.Call)
    (next : c.Reply → Program Engine.interface (Except EngineError Engine.Outcome))
    (r : c.Reply) : Advance b (.acting m (.call c next)) none (.acting m (next r))
  | finish (m : Monitor) (outcome : Except EngineError Engine.Outcome) :
    Advance b (.acting m (.done outcome)) (some (.finishes outcome.isOk))
      (.acted m outcome.isOk)
  | fail (m m' : Monitor) (hkind : m'.kind = m.kind) :
    Advance b (.acted m false) none (.waiting m')
  | persist (m m' : Monitor) (p : Program Engine.interface Unit) (hkind : m'.kind = m.kind)
    (h : m.kind = .persistent) : Advance b (.acted m true) none (.noting m' p)
  | expend (m m' : Monitor) (hkind : m'.kind = m.kind) :
    Advance b (.acted m true) none (.spent m')
  | yield (m : Monitor) (h : b.halted = true) : Advance b (.spent m) none (.leaving m)
  | resign (m : Monitor) (h : b.halted = false) : Advance b (.spent m) none (.resigned m)
  | retire (m : Monitor) (p : Program Engine.interface Unit) :
    Advance b (.resigned m) (some .retires) (.retiring m p)
  | withdraw (m : Monitor) (c : Engine.Call) (next : c.Reply → Program Engine.interface Unit)
    (r : c.Reply) : Advance b (.retiring m (.call c next)) none (.retiring m (next r))
  | withdrawn (m : Monitor) : Advance b (.retiring m (.done ())) none (.leaving m)
  | note (m : Monitor) (c : Engine.Call) (next : c.Reply → Program Engine.interface Unit)
    (r : c.Reply) : Advance b (.noting m (.call c next)) none (.noting m (next r))
  | noted (m : Monitor) : Advance b (.noting m (.done ())) none (.waiting m)
  | leave (m : Monitor) : Advance b (.leaving m) (some .ends) (.ended m.stop)
  | stay (m : Monitor) : Advance b (.ended m) none (.ended m)

section Own

variable (settings : Engine.Settings) (handle : MonitorHandle) (binding : MonitorBinding)

/-- A task that waits goes on to the next sample, unless it is signalled. -/
theorem advance_take (b : Mailbox) (m : Monitor) (others : List (Program Mailbox.interface Unit)) :
    Advance b (.waiting m) (take ⟨b, .waiting m, others⟩ m).1
      (take ⟨b, .waiting m, others⟩ m).2.phase := by
  rw [take]
  by_cases hsignalled : b.signalled = true
  · rw [if_pos hsignalled]
    exact .wake m
  · rw [if_neg hsignalled]
    rw [Bool.not_eq_true] at hsignalled
    cases b.queue with
    | nil =>
      dsimp only
      split
      · exact .wake m
      · exact .wait m hsignalled
    | cons sample queue => exact .receive m sample hsignalled

omit binding in
/-- What a task does after its action depends on how the action ended and on the kind of its
    monitor. -/
theorem advance_conclude (b : Mailbox) (m : Monitor) (success : Bool) :
    Advance b (.acted m success) none
      (Phase.afterAction settings handle success (m.conclude success)) := by
  cases success with
  | false => exact .fail m _ rfl
  | true =>
    cases hkind : m.kind with
    | persistent =>
      rw [Session.conclude_of_persistent m hkind]
      exact .persist m m _ rfl hkind
    | transient =>
      rw [Session.conclude_of_transient m hkind]
      exact .expend m m.stop rfl

/-- A step of a task is one of these. -/
theorem advance_own (answer : (c : Engine.Call) → c.Reply) (x : Station) :
    Advance x.mailbox x.phase (x.own settings handle binding answer).1
      (x.own settings handle binding answer).2.phase := by
  -- A task reads from its own mailbox whether it has been told to stop.
  have hflag : reply handle x.mailbox answer (.isHalted handle.serial) = x.mailbox.halted :=
    if_pos rfl
  rcases x with ⟨b, phase, others⟩
  cases phase with
  | waiting m => exact advance_take b m others
  | received m sample =>
    change Advance b _ none ((fun halted : Bool => if halted then Phase.leaving m
      else .cleared m sample) (reply handle b answer (.isHalted handle.serial)))
    rw [hflag]
    dsimp only
    by_cases hhalted : b.halted = true
    · rw [if_pos hhalted]
      exact .heed m sample hhalted
    · rw [if_neg hhalted]
      exact .clear m sample (Bool.not_eq_true _ ▸ hhalted)
  | cleared m sample =>
    have hkind := (Session.observe_core m sample.metric sample.value).1
    change Advance b _ none (Phase.afterSample (m.observe sample.metric sample.value))
    rcases hobserve : m.observe sample.metric sample.value with ⟨fires, m'⟩
    rw [hobserve] at hkind
    cases fires with
    | false => exact .pass m m' sample hkind
    | true => exact .fire m m' sample hkind
  | fired m => exact .begin m _
  | acting m p =>
    cases p with
    | call c next => exact .act m c next _
    | done outcome => exact .finish m outcome
  | acted m success => exact advance_conclude settings handle b m success
  | spent m =>
    change Advance b _ none ((fun halted : Bool => if halted then Phase.leaving m
      else .resigned m) (reply handle b answer (.isHalted handle.serial)))
    rw [hflag]
    dsimp only
    by_cases hhalted : b.halted = true
    · rw [if_pos hhalted]
      exact .yield m hhalted
    · rw [if_neg hhalted]
      exact .resign m (Bool.not_eq_true _ ▸ hhalted)
  | resigned m => exact .retire m _
  | retiring m p =>
    cases p with
    | call c next => exact .withdraw m c next _
    | done a => exact .withdrawn m
  | noting m p =>
    cases p with
    | call c next => exact .note m c next _
    | done a => exact .noted m
  | leaving m => exact .leave m
  | ended m => exact .stay m

end Own

/-! ### What may still come -/

section Credit

variable (settings : Engine.Settings) (handle : MonitorHandle) (binding : MonitorBinding)

/-- If every step of the task that shows an event of some kind uses up one of those that may still
    come, there are no more of them than that. -/
theorem countP_run (inv : Station → Prop) (kind : Event → Bool) (left : Phase → Nat)
    (hinv : ∀ move x, inv x → inv (x.step settings handle binding move).2)
    (hadvance : ∀ x event next, inv x → Advance x.mailbox x.phase event next →
      event.toList.countP kind + left next ≤ left x.phase)
    (moves : List Move) (x : Station) (hx : inv x) :
    (run settings handle binding moves x).1.countP kind ≤ left x.phase := by
  induction moves generalizing x with
  | nil => exact Nat.zero_le _
  | cons move moves ih =>
    have hrest := ih _ (hinv move x hx)
    -- Only a step of the task itself shows anything or leads to another phase.
    have hstep : (x.step settings handle binding move).1.toList.countP kind +
        left (x.step settings handle binding move).2.phase ≤ left x.phase := by
      by_cases hmove : move.IsOwn
      · cases move with
        | own answer => exact hadvance x _ _ hx (advance_own settings handle binding answer x)
        | other i => exact absurd hmove not_false
        | close => exact absurd hmove not_false
      · rcases step_of_not_own settings handle binding move x hmove with ⟨hevent, hphase⟩
        rw [hevent, hphase]
        exact Nat.le_of_eq (Nat.zero_add _)
    rw [run_cons, List.countP_append]
    omega

/-- The same once the flag is set. -/
theorem countP_run_of_halted (kind : Event → Bool) (left : Phase → Nat)
    (hadvance : ∀ b phase event next, b.halted = true → Advance b phase event next →
      event.toList.countP kind + left next ≤ left phase)
    (moves : List Move) (x : Station) (hx : x.mailbox.halted = true) :
    (run settings handle binding moves x).1.countP kind ≤ left x.phase :=
  countP_run settings handle binding (fun x => x.mailbox.halted = true) kind left
    (halted_step settings handle binding)
    (fun y event next => hadvance y.mailbox y.phase event next)
    moves x hx

/-- Once the flag is set: how many actions may still come to their end. -/
def finishesLeft : Phase → Nat
  | .cleared _ _ | .fired _ | .acting _ _ => 1
  | _ => 0

/-- Once the flag is set: how many actions may still begin. -/
def beginsLeft : Phase → Nat
  | .cleared _ _ | .fired _ => 1
  | _ => 0

/-- Once the flag is set: how many samples may still be received. -/
def receivesLeft : Phase → Nat
  | .waiting _ | .cleared _ _ | .fired _ | .acting _ _ | .acted _ _ | .noting _ _ => 1
  | _ => 0

/-- How many actions of a transient policy may still succeed. -/
def successesLeft : Phase → Nat
  | .waiting _ | .received _ _ | .cleared _ _ | .fired _ | .acting _ _ | .noting _ _ => 1
  | .acted _ success => if success then 0 else 1
  | _ => 0

/-- How often a policy may still be retired. -/
def retiresLeft : Phase → Nat
  | .retiring _ _ | .leaving _ | .ended _ => 0
  | _ => 1

def isFinish : Event → Bool
  | .finishes _ => true
  | _ => false

def isReceipt : Event → Bool
  | .receives _ => true
  | _ => false

theorem length_received (events : List Event) :
    (received events).length = events.countP isReceipt := by
  induction events with
  | nil => rfl
  | cons event rest ih =>
    rw [received, List.filterMap_cons, List.countP_cons]
    cases event with
    | receives sample => exact congrArg (· + 1) ih
    | _ => exact ih

def isSuccess : Event → Bool
  | .finishes success => success
  | _ => false

section Halted

variable (moves : List Move) (x : Station) (hx : x.mailbox.halted = true)

include hx

/-- Once the flag is set, at most the action that has begun, or is about to, comes to its end. -/
theorem finishes_run :
    (run settings handle binding moves x).1.countP isFinish ≤ finishesLeft x.phase := by
  refine countP_run_of_halted settings handle binding _ _ ?_ moves x hx
  intro b phase event next hb hadvance
  cases hadvance with
  | clear m sample h => exact absurd hb (by simp [h])
  | _ => simp [finishesLeft, isFinish]

/-- Once the flag is set, only an action that is about to begin does so. -/
theorem begins_run : (run settings handle binding moves x).1.countP (fun event => event = .begins) ≤
    beginsLeft x.phase := by
  refine countP_run_of_halted settings handle binding _ _ ?_ moves x hx
  intro b phase event next hb hadvance
  cases hadvance with
  | clear m sample h => exact absurd hb (by simp [h])
  | _ => simp [beginsLeft]

/-- Once the flag is set, one more sample is received at most. -/
theorem receives_run :
    (run settings handle binding moves x).1.countP isReceipt ≤ receivesLeft x.phase := by
  refine countP_run_of_halted settings handle binding _ _ ?_ moves x hx
  intro b phase event next hb hadvance
  cases hadvance with
  | clear m sample h => exact absurd hb (by simp [h])
  | _ => simp [receivesLeft, isReceipt]

end Halted

theorem kind_step (move : Move) (x : Station) :
    (x.step settings handle binding move).2.phase.monitor.kind = x.phase.monitor.kind := by
  by_cases hmove : move.IsOwn
  · cases move with
    | own answer =>
      have hadvance := advance_own settings handle binding answer x
      rw [step]
      generalize x.phase = phase at hadvance ⊢
      generalize (x.own settings handle binding answer).1 = event at hadvance
      generalize (x.own settings handle binding answer).2.phase = next at hadvance ⊢
      cases hadvance with
      | pass m m' sample hkind => exact hkind
      | fire m m' sample hkind => exact hkind
      | fail m m' hkind => exact hkind
      | persist m m' p hkind => exact hkind
      | expend m m' hkind => exact hkind
      | _ => rfl
    | other i => exact absurd hmove not_false
    | close => exact absurd hmove not_false
  · rw [(step_of_not_own settings handle binding move x hmove).2]

/-- The action of a transient policy succeeds once at most. -/
theorem successes_run (moves : List Move) (x : Station)
    (hx : x.phase.monitor.kind = .transient) :
    (run settings handle binding moves x).1.countP isSuccess ≤ successesLeft x.phase := by
  refine countP_run settings handle binding (fun x => x.phase.monitor.kind = .transient) _ _
    (fun move x hx => (kind_step settings handle binding move x).trans hx) ?_ moves x hx
  intro y event next hy hadvance
  generalize y.phase = phase at hadvance hy
  cases hadvance with
  | finish m outcome =>
    cases outcome with
    | ok a => simp [successesLeft, isSuccess, Except.isOk, Except.toBool]
    | error e => simp [successesLeft, isSuccess, Except.isOk, Except.toBool]
  | persist m m' p hkind h =>
    have hkind : m.kind = .transient := hy
    exact absurd (h.symm.trans hkind) (by decide)
  | _ => simp [successesLeft, isSuccess]

/-- A policy is retired once at most. -/
theorem retires_run (moves : List Move) (x : Station) :
    (run settings handle binding moves x).1.countP (fun event => event = .retires) ≤
      retiresLeft x.phase := by
  refine countP_run settings handle binding (fun _ => True) _ _ (fun _ _ _ => trivial) ?_ moves x
    trivial
  intro y event next hy hadvance
  generalize y.phase = phase at hadvance
  cases hadvance with
  | _ => simp [retiresLeft]

/-! ### What follows an event -/

/-- Where an event is seen, there is a step that shows it. -/
theorem exists_of_run (moves : List Move) (x : Station) (front back : List Event) (event : Event)
    (h : (run settings handle binding moves x).1 = front ++ event :: back) :
    ∃ before move rest, moves = before ++ move :: rest ∧
      ((run settings handle binding before x).2.step settings handle binding move).1 = some event ∧
      (run settings handle binding rest
        ((run settings handle binding before x).2.step settings handle binding move).2).1 =
          back := by
  induction moves generalizing x front with
  | nil => exact absurd h (by simp [run])
  | cons move moves ih =>
    rw [run_cons] at h
    -- The first step shows nothing, or the event, or one that stands before it.
    cases hevent : (x.step settings handle binding move).1 with
    | none =>
      rw [hevent] at h
      rcases ih _ front h with ⟨before, other, rest, rfl, hshown, hback⟩
      exact ⟨move :: before, other, rest, rfl, hshown, hback⟩
    | some first =>
      rw [hevent] at h
      cases front with
      | nil =>
        rcases List.cons.inj h with ⟨rfl, hback⟩
        exact ⟨[], move, moves, rfl, hevent, hback⟩
      | cons other front =>
        rcases ih _ front (List.cons.inj h).2 with ⟨before, other, rest, rfl, hshown, hback⟩
        exact ⟨move :: before, other, rest, rfl, hshown, hback⟩

/-- Once the flag is set, no action begins after a sample has been received. -/
theorem begins_not_mem (moves : List Move) (x : Station) (hx : x.mailbox.halted = true)
    (front back : List Event) (sample : Sample)
    (h : (run settings handle binding moves x).1 = front ++ .receives sample :: back) :
    .begins ∉ back := by
  rcases exists_of_run settings handle binding moves x front back _ h with
    ⟨before, move, rest, -, hshown, hback⟩
  have hhalted := halted_run settings handle binding before x hx
  generalize (run settings handle binding before x).2 = y at *
  have hphase : beginsLeft (y.step settings handle binding move).2.phase = 0 := by
    cases move with
    | own answer =>
      have hadvance := advance_own settings handle binding answer y
      rw [step] at hshown ⊢
      rw [hshown] at hadvance
      generalize y.phase = phase at hadvance
      generalize (y.own settings handle binding answer).2.phase = next at hadvance ⊢
      cases hadvance
      rfl
    | other i => exact nomatch hshown
    | close => exact nomatch hshown
  have hcount := begins_run settings handle binding rest _
    (halted_step settings handle binding move y hhalted)
  -- The sample is refused as soon as the task looks at the flag, so that nothing is left to begin.
  rw [hback, hphase, Nat.le_zero, List.countP_eq_zero] at hcount
  intro hmem
  exact hcount _ hmem (decide_eq_true rfl)

theorem queue_own (answer : (c : Engine.Call) → c.Reply) (x : Station) :
    x.mailbox.queue = received (x.own settings handle binding answer).1.toList ++
      (x.own settings handle binding answer).2.mailbox.queue := by
  have hadvance := advance_own settings handle binding answer x
  rw [own] at hadvance ⊢
  cases hstep : x.phase.step settings handle binding with
  | take m =>
    dsimp only
    rw [take]
    split
    · rfl
    · split
      · assumption
      · split <;> rfl
  | move event next =>
    rw [hstep] at hadvance
    dsimp only at hadvance ⊢
    cases event with
    | none => rfl
    | some event =>
      cases event with
      | receives sample =>
        -- A sample is received by taking it.
        exfalso
        generalize x.phase = phase at hadvance hstep
        cases hadvance
        exact nomatch hstep
      | _ => rfl
  | ask c next =>
    dsimp only
    cases c with
    | halt serial =>
      rw [effect]
      split
      · rw [Mailbox.run_stop]
        rfl
      · rfl
    | _ => rfl
  | none => rfl

theorem queue_step (move : Move) (x : Station) :
    ∃ arrived, x.mailbox.queue ++ arrived =
      received (x.step settings handle binding move).1.toList ++
        (x.step settings handle binding move).2.mailbox.queue := by
  cases move with
  | own answer => exact ⟨[], (List.append_nil _).trans (queue_own settings handle binding answer x)⟩
  | close => exact ⟨[], List.append_nil _⟩
  | other i =>
    rw [step, other]
    dsimp only
    split
    · rename_i c next hprogram
      cases c with
      | push sample =>
        rw [Mailbox.exec]
        split
        · exact ⟨[], List.append_nil _⟩
        · exact ⟨[sample], rfl⟩
      | _ => exact ⟨[], List.append_nil _⟩
    · exact ⟨[], List.append_nil _⟩

/-- What is received is what was there and what has arrived, in order. -/
theorem queue_run (moves : List Move) (x : Station) :
    ∃ arrived, x.mailbox.queue ++ arrived = received (run settings handle binding moves x).1 ++
      (run settings handle binding moves x).2.mailbox.queue := by
  induction moves generalizing x with
  | nil => exact ⟨[], List.append_nil _⟩
  | cons move moves ih =>
    rcases queue_step settings handle binding move x with ⟨first, hfirst⟩
    rcases ih (x.step settings handle binding move).2 with ⟨later, hlater⟩
    refine ⟨first ++ later, ?_⟩
    rw [run_cons, received, List.filterMap_append, List.append_assoc, ← List.append_assoc, hfirst,
      List.append_assoc, hlater]
    rfl

end Credit

end Station

end StoragePolicy
