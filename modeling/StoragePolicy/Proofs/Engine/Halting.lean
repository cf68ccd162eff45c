import StoragePolicy.Proofs.Engine.Station

/-!
# Telling a task to stop

Three things are to stop a task: a flag, a signal, and that the signal is preferred to a sample
where both are there. When a call that tells the task to stop has returned, the flag is set, and if
no such call stands between its two steps, the signal has been given as well, or been taken already.

That the task comes to its end is another matter than what it may still do, since the programs of
the calls it makes have no bound in common. The induction follows the program that is left.

## Main definitions

* `Station.Sound`: What holds from the start on.

## Theorems

* `sound_run`: What holds from the start on.
* `exists_ended`: A task that has been told to stop comes to its end.
* `run_stopped`: Telling a task to stop.
-/

namespace StoragePolicy

open Engine (Phase Event)

/-! ### The flag and the signal -/

/-- The steps of who gives a sample. -/
def Mailbox.Call.Harmless : Mailbox.Call → Prop
  | .isHalted | .push _ => True
  | _ => False

namespace Station

section Sound

variable (settings : Engine.Settings) (handle : MonitorHandle) (binding : MonitorBinding)

/-- The task does not wait any more. -/
def Last : Phase → Prop
  | .leaving _ | .ended _ => True
  | _ => False

/-- What is left of the program of one of the others. Who is between the two steps of telling the
    task to stop, or has returned, finds the flag set. -/
def Stands (halted : Bool) (p : Program Mailbox.interface Unit) : Handling → Prop
  | .stop => p = Mailbox.stop ∨ halted = true ∧ (p = signalling ∨ p = .done ())
  | .offer _ => p.Makes Mailbox.Call.Harmless

/-- What holds from the start on. -/
structure Sound (handlings : List Handling) (x : Station) : Prop where
  /-- The others follow their programs. -/
  standing : ∀ (i : Nat) p, x.others[i]? = some p →
    ∃ handling, handlings[i]? = some handling ∧ Stands x.mailbox.halted p handling
  /-- If the flag is set, the signal is there, or it is about to be given, or it has been taken. -/
  signalled : x.mailbox.halted = true →
    x.mailbox.signalled = true ∨ ¬ x.Settled ∨ Last x.phase

theorem sound_start (m : Monitor) (queue : List Sample) (handlings : List Handling) :
    (start m queue handlings).Sound handlings where
  standing := by
    intro i p h
    rw [start, List.getElem?_map, Option.map_eq_some_iff] at h
    rcases h with ⟨handling, hhandling, rfl⟩
    refine ⟨handling, hhandling, ?_⟩
    cases handling with
    | stop => exact Or.inl rfl
    | offer sample =>
      refine ⟨trivial, fun halted : Bool => ?_⟩
      cases halted with
      | true => trivial
      | false => exact ⟨trivial, fun taken => trivial⟩
  signalled := fun h => nomatch h

theorem stands_of_halted (p : Program Mailbox.interface Unit) (handling : Handling)
    (before after : Bool) (hkept : before = true → after = true)
    (h : Stands before p handling) : Stands after p handling := by
  cases handling with
  | offer sample => exact h
  | stop => exact h.imp id fun hp => ⟨hkept hp.1, hp.2⟩

theorem last_of_advance (b : Mailbox) (phase next : Phase) (event : Option Event)
    (h : Advance b phase event next) (hlast : Last phase) : Last next := by
  cases h with
  | leave m => trivial
  | stay m => trivial
  | _ => exact absurd hlast not_false

/-- A step of the task leaves the others alone. It sets the flag only together with the signal, and
    takes the signal only to leave. -/
theorem own_flags (answer : (c : Engine.Call) → c.Reply) (x : Station) :
    (x.own settings handle binding answer).2.others = x.others ∧
      ((x.own settings handle binding answer).2.mailbox.halted = true →
        x.mailbox.halted = true ∨
          (x.own settings handle binding answer).2.mailbox.signalled = true) ∧
      (x.mailbox.signalled = true →
        (x.own settings handle binding answer).2.mailbox.signalled = true ∨
          Last (x.own settings handle binding answer).2.phase) := by
  rw [own]
  cases x.phase.step settings handle binding with
  | take m =>
    dsimp only
    rw [take]
    split
    · exact ⟨rfl, Or.inl, fun _ => Or.inr trivial⟩
    · split
      · exact ⟨rfl, Or.inl, Or.inl⟩
      · split
        · exact ⟨rfl, Or.inl, Or.inl⟩
        · exact ⟨rfl, Or.inl, Or.inl⟩
  | move event next => exact ⟨rfl, Or.inl, Or.inl⟩
  | none => exact ⟨rfl, Or.inl, Or.inl⟩
  | ask c next =>
    -- A halt is the only call of a task that touches its own mailbox.
    cases c with
    | halt serial =>
      dsimp only
      rw [effect]
      split
      · rw [Mailbox.run_stop]
        refine ⟨rfl, fun _ => ?_, fun h => Or.inl ?_⟩
        · cases x.mailbox.halted with
          | true => exact Or.inl rfl
          | false => exact Or.inr (Bool.or_true _)
        · rw [h]
          rfl
      · exact ⟨rfl, Or.inl, Or.inl⟩
    | _ => exact ⟨rfl, Or.inl, Or.inl⟩

/-- How one of the others gets on with its program. -/
inductive Handles (b : Mailbox) :
    Handling → Program Mailbox.interface Unit → Mailbox → Program Mailbox.interface Unit →
      Prop where
  /-- It is the first to tell the task. -/
  | raise (h : b.halted = false) :
    Handles b .stop Mailbox.stop { b with halted := true } signalling
  /-- The task has been told before. -/
  | know (h : b.halted = true) : Handles b .stop Mailbox.stop b (.done ())
  | signal (h : b.halted = true) :
    Handles b .stop signalling { b with signalled := true } (.done ())
  | offer (sample : Sample) (queue : List Sample) (p p' : Program Mailbox.interface Unit)
    (hp : p.Makes Mailbox.Call.Harmless) (hp' : p'.Makes Mailbox.Call.Harmless) :
    Handles b (.offer sample) p { b with queue } p'

/-- A step of one of the others is one of these, unless it has returned. -/
theorem handles_other (handlings : List Handling) (x : Station) (h : x.Sound handlings) (i : Nat) :
    x.other i = x ∨ ∃ handling p b p', handlings[i]? = some handling ∧ x.others[i]? = some p ∧
      Handles x.mailbox handling p b p' ∧
      x.other i = { x with mailbox := b, others := x.others.set i p' } := by
  cases hget : x.others[i]? with
  | none =>
    refine Or.inl ?_
    rw [other, hget]
  | some p =>
    rcases h.standing i p hget with ⟨handling, hhandling, hstands⟩
    cases p with
    | done a =>
      refine Or.inl ?_
      rw [other, hget]
    | call c next =>
      refine Or.inr ⟨handling, _, _, _, hhandling, rfl, ?_, by rw [other, hget]⟩
      -- A sample that is offered is put into the queue or not. A stop goes through its two calls.
      cases handling with
      | offer sample =>
        rcases hstands with ⟨hharmless, hnext⟩
        cases c with
        | raise => exact absurd hharmless not_false
        | signal => exact absurd hharmless not_false
        | isHalted => exact .offer sample x.mailbox.queue _ _ ⟨hharmless, hnext⟩ (hnext _)
        | push other =>
          rw [Mailbox.exec]
          split
          · exact .offer sample x.mailbox.queue _ _ ⟨hharmless, hnext⟩ (hnext _)
          · exact .offer sample _ _ _ ⟨hharmless, hnext⟩ (hnext _)
      | stop =>
        rcases hstands with hstop | ⟨hhalted, hsignal | hdone⟩
        · cases hstop
          change Handles x.mailbox .stop Mailbox.stop { x.mailbox with halted := true }
            (if !x.mailbox.halted then signalling else .done ())
          by_cases hhalted : x.mailbox.halted = true
          · have hsame : { x.mailbox with halted := true } = x.mailbox := by rw [← hhalted]
            rw [hsame, hhalted]
            exact .know hhalted
          · rw [Bool.not_eq_true] at hhalted
            rw [hhalted]
            exact .raise hhalted
        · cases hsignal
          exact .signal hhalted
        · cases hdone

theorem stop_ne_signalling : Mailbox.stop ≠ signalling := fun h => nomatch h

/-- A program of who gives a sample is not between the two steps of telling the task to stop. -/
theorem ne_signalling (p : Program Mailbox.interface Unit) (hp : p.Makes Mailbox.Call.Harmless) :
    p ≠ signalling := by
  rintro rfl
  exact hp.1

theorem stands_of_handles (b b' : Mailbox) (handling : Handling)
    (p p' : Program Mailbox.interface Unit) (h : Handles b handling p b' p') :
    (b.halted = true → b'.halted = true) ∧ Stands b'.halted p' handling := by
  cases h with
  | raise h => exact ⟨fun _ => rfl, Or.inr ⟨rfl, Or.inl rfl⟩⟩
  | know h => exact ⟨fun _ => h, Or.inr ⟨h, Or.inr rfl⟩⟩
  | signal h => exact ⟨fun _ => h, Or.inr ⟨h, Or.inr rfl⟩⟩
  | offer sample queue _ _ hp hp' => exact ⟨id, hp'⟩

/-- Who is between the two steps stays there while another goes on. -/
theorem not_settled_of_other (x : Station) (b : Mailbox) (i : Nat)
    (p p' : Program Mailbox.interface Unit) (h : ¬ x.Settled) (hp : x.others[i]? = some p)
    (hne : p ≠ signalling) :
    ¬ Settled { x with mailbox := b, others := x.others.set i p' } := by
  rw [Settled, not_forall] at h ⊢
  rcases h with ⟨j, hj⟩
  rw [not_not] at hj
  have hij : i ≠ j := by
    rintro rfl
    exact hne (Option.some.inj (hp.symm.trans hj))
  refine ⟨j, not_not.mpr ?_⟩
  dsimp only
  rw [List.getElem?_set_ne hij, hj]

theorem sound_step (handlings : List Handling) (move : Move) (x : Station)
    (h : x.Sound handlings) :
    (x.step settings handle binding move).2.Sound handlings := by
  have hhalted := halted_step settings handle binding move x
  cases move with
  | close => exact ⟨h.standing, h.signalled⟩
  | own answer =>
    rcases own_flags settings handle binding answer x with ⟨hothers, hset, htaken⟩
    have hlast := last_of_advance _ _ _ _ (advance_own settings handle binding answer x)
    refine ⟨fun i p hp => ?_, fun hnow => ?_⟩
    · rcases h.standing i p (hothers ▸ hp) with ⟨handling, hhandling, hstands⟩
      exact ⟨handling, hhandling, stands_of_halted p handling _ _ hhalted hstands⟩
    · rcases hset hnow with hbefore | hsignalled
      · -- The flag was set before, and the step leaves the reason why the task will stop.
        rcases h.signalled hbefore with hsignalled | hunsettled | hdone
        · exact (htaken hsignalled).imp id Or.inr
        · refine Or.inr (Or.inl ?_)
          rw [Settled] at hunsettled ⊢
          rwa [step, hothers]
        · exact Or.inr (Or.inr (hlast hdone))
      · exact Or.inl hsignalled
  | other i =>
    rw [step] at hhalted ⊢
    rcases handles_other handlings x h i with
      hsame | ⟨handling, p, b, p', hhandling, hp, hstep, hnext⟩
    · dsimp only
      rw [hsame]
      exact h
    · rcases stands_of_handles _ _ _ _ _ hstep with ⟨hkept, hstands⟩
      have hlength := (List.getElem?_eq_some_iff.mp hp).1
      dsimp only
      rw [hnext]
      refine ⟨fun j p'' hj => ?_, fun hnow => ?_⟩
      · dsimp only at hj ⊢
        by_cases hij : i = j
        · rw [← hij, List.getElem?_set_self hlength] at hj
          cases hj
          exact ⟨handling, hij ▸ hhandling, hstands⟩
        · rw [List.getElem?_set_ne hij] at hj
          rcases h.standing j p'' hj with ⟨own, hown, hold⟩
          exact ⟨own, hown, stands_of_halted p'' own _ _ hkept hold⟩
      · -- Who does not tell the task to stop changes neither the flag nor the signal.
        have hidle : p ≠ signalling → b.halted = x.mailbox.halted →
            b.signalled = x.mailbox.signalled → b.signalled = true ∨
              ¬ Settled { x with mailbox := b, others := x.others.set i p' } ∨ Last x.phase := by
          intro hne hsame hsignal
          rw [hsignal]
          refine (h.signalled (hsame ▸ hnow)).imp id (Or.imp ?_ id)
          exact fun hunsettled => not_settled_of_other x b i p p' hunsettled hp hne
        cases hstep with
        | raise _ =>
          exact Or.inr (Or.inl fun hsettled => hsettled i (List.getElem?_set_self hlength))
        | know _ => exact hidle stop_ne_signalling rfl rfl
        | signal _ => exact Or.inl rfl
        | offer sample queue _ _ hharmless _ => exact hidle (ne_signalling p hharmless) rfl rfl

theorem sound_run (handlings : List Handling) (moves : List Move) (x : Station)
    (h : x.Sound handlings) : (run settings handle binding moves x).2.Sound handlings := by
  induction moves generalizing x with
  | nil => exact h
  | cons move moves ih => exact ih _ (sound_step settings handle binding handlings move x h)

/-- Once the flag is set, nobody begins to give the signal. -/
theorem settled_step (handlings : List Handling) (move : Move) (x : Station)
    (h : x.Sound handlings) (hhalted : x.mailbox.halted = true) (hsettled : x.Settled) :
    (x.step settings handle binding move).2.Settled := by
  cases move with
  | close => exact hsettled
  | own answer =>
    rw [step, Settled, (own_flags settings handle binding answer x).1]
    exact hsettled
  | other i =>
    rw [step]
    rcases handles_other handlings x h i with hsame | ⟨handling, p, b, p', -, hp, hstep, hnext⟩
    · dsimp only
      rwa [hsame]
    · have hlength := (List.getElem?_eq_some_iff.mp hp).1
      dsimp only
      rw [hnext]
      intro j
      dsimp only
      -- Only the one that steps could begin to give the signal, and it does so only if the flag
      -- is not set.
      by_cases hij : i = j
      · rw [← hij, List.getElem?_set_self hlength, Ne, Option.some.injEq]
        cases hstep with
        | raise hflag => exact absurd hhalted (by simp [hflag])
        | know _ => exact fun h => by cases h
        | signal _ => exact fun h => by cases h
        | offer sample queue _ _ _ hharmless => exact ne_signalling p' hharmless
      · rw [List.getElem?_set_ne hij]
        exact hsettled j

/-- Who has told the task to stop and returned has set the flag. -/
theorem halted_of_returned (handlings : List Handling) (x : Station) (h : x.Sound handlings)
    (hreturned : x.Returned handlings) : x.mailbox.halted = true := by
  rcases hreturned with ⟨i, hstop, hdone⟩
  rcases h.standing i _ hdone with ⟨handling, hhandling, hstands⟩
  cases hstop.symm.trans hhandling
  rcases hstands with hfirst | ⟨hhalted, -⟩
  · exact nomatch hfirst
  · exact hhalted

end Sound

/-! ### How a task comes to its end -/

section Induction

variable {motive : Phase → Prop} (ended : ∀ m, motive (.ended m))
  (next : ∀ phase, (∀ b event later, b.halted = true → b.signalled = true ∨ Last phase →
    Advance b phase event later → motive later) → motive phase)

include ended next

theorem of_leaving (m : Monitor) : motive (.leaving m) := by
  refine next _ fun b event later _ _ hadvance => ?_
  cases hadvance
  exact ended m.stop

theorem of_waiting (m : Monitor) : motive (.waiting m) := by
  refine next _ fun b event later _ hsignalled hadvance => ?_
  have hsignal := hsignalled.resolve_right not_false
  -- The signal is preferred, so the task neither waits on nor takes a sample.
  cases hadvance with
  | wait _ hnone => exact absurd hsignal (by simp [hnone])
  | wake _ => exact of_leaving ended next m
  | receive _ sample hnone => exact absurd hsignal (by simp [hnone])

/-- A program of calls is a finite tree, whatever is answered. -/
theorem of_noting (m : Monitor) (p : Program Engine.interface Unit) : motive (.noting m p) := by
  induction p with
  | done a =>
    refine next _ fun b event later _ _ hadvance => ?_
    cases hadvance
    exact of_waiting ended next m
  | call c rest ih =>
    refine next _ fun b event later _ _ hadvance => ?_
    cases hadvance with
    | note _ _ _ r => exact ih r

theorem of_retiring (m : Monitor) (p : Program Engine.interface Unit) :
    motive (.retiring m p) := by
  induction p with
  | done a =>
    refine next _ fun b event later _ _ hadvance => ?_
    cases hadvance
    exact of_leaving ended next m
  | call c rest ih =>
    refine next _ fun b event later _ _ hadvance => ?_
    cases hadvance with
    | withdraw _ _ _ r => exact ih r

theorem of_spent (m : Monitor) : motive (.spent m) := by
  refine next _ fun b event later hhalted _ hadvance => ?_
  cases hadvance with
  | yield _ _ => exact of_leaving ended next m
  | resign _ hflag => exact absurd hhalted (by simp [hflag])

theorem of_acted (m : Monitor) (success : Bool) : motive (.acted m success) := by
  refine next _ fun b event later _ _ hadvance => ?_
  cases hadvance with
  | fail _ m' _ => exact of_waiting ended next m'
  | persist _ m' p _ _ => exact of_noting ended next m' p
  | expend _ m' _ => exact of_spent ended next m'

theorem of_acting (m : Monitor)
    (p : Program Engine.interface (Except EngineError Engine.Outcome)) :
    motive (.acting m p) := by
  induction p with
  | done outcome =>
    refine next _ fun b event later _ _ hadvance => ?_
    cases hadvance
    exact of_acted ended next m outcome.isOk
  | call c rest ih =>
    refine next _ fun b event later _ _ hadvance => ?_
    cases hadvance with
    | act _ _ _ r => exact ih r

theorem of_fired (m : Monitor) : motive (.fired m) := by
  refine next _ fun b event later _ _ hadvance => ?_
  cases hadvance with
  | begin _ p => exact of_acting ended next m p

/-- What holds of a task that has ended, and of one in a phase if it holds in every phase that may
    come next for a task that has been told to stop, holds in every phase. -/
theorem told_induction (phase : Phase) : motive phase := by
  -- The lemmas above go backwards from the end. Each phase is shown after those that come next.
  cases phase with
  | waiting m => exact of_waiting ended next m
  | received m sample =>
    refine next _ fun b event later hhalted _ hadvance => ?_
    cases hadvance with
    | heed _ _ _ => exact of_leaving ended next m
    | clear _ _ hflag => exact absurd hhalted (by simp [hflag])
  | cleared m sample =>
    refine next _ fun b event later _ _ hadvance => ?_
    cases hadvance with
    | pass _ m' _ _ => exact of_waiting ended next m'
    | fire _ m' _ _ => exact of_fired ended next m'
  | fired m => exact of_fired ended next m
  | acting m p => exact of_acting ended next m p
  | acted m success => exact of_acted ended next m success
  | spent m => exact of_spent ended next m
  | resigned m =>
    refine next _ fun b event later _ _ hadvance => ?_
    cases hadvance with
    | retire _ p => exact of_retiring ended next m p
  | retiring m p => exact of_retiring ended next m p
  | noting m p => exact of_noting ended next m p
  | leaving m => exact of_leaving ended next m
  | ended m => exact ended m

end Induction

section Ending

variable (settings : Engine.Settings) (handle : MonitorHandle) (binding : MonitorBinding)

/-- A task that has been told to stop, and by nobody who has still to give the signal. -/
structure Told (handlings : List Handling) (x : Station) : Prop extends x.Sound handlings where
  halted : x.mailbox.halted = true
  settled : x.Settled

theorem told_step (handlings : List Handling) (move : Move) (x : Station) (h : x.Told handlings) :
    (x.step settings handle binding move).2.Told handlings where
  toSound := sound_step settings handle binding handlings move x h.toSound
  halted := halted_step settings handle binding move x h.halted
  settled := settled_step settings handle binding handlings move x h.toSound h.halted h.settled

/-- The signal is there if the task waits. -/
theorem signalled_of_told (handlings : List Handling) (x : Station) (h : x.Told handlings) :
    x.mailbox.signalled = true ∨ Last x.phase :=
  (h.signalled h.halted).imp id (Or.resolve_left · (not_not.mpr h.settled))

/-- A task that has been told to stop receives no sample. -/
theorem received_of_told (handlings : List Handling) (moves : List Move) (x : Station)
    (h : x.Told handlings) : received (run settings handle binding moves x).1 = [] := by
  rw [← List.length_eq_zero_iff, length_received]
  refine Nat.le_zero.mp (countP_run settings handle binding (Told handlings) isReceipt (fun _ => 0)
    (told_step settings handle binding handlings) ?_ moves x h)
  intro y event next hy hadvance
  have hsignalled := signalled_of_told handlings y hy
  generalize y.phase = phase at hadvance hsignalled
  cases hadvance with
  | receive m sample hnone =>
    rcases hsignalled with hsignal | hlast
    · exact absurd hsignal (by simp [hnone])
    · exact absurd hlast not_false
  | _ => simp [isReceipt]

section Forever

variable (handlings : List Handling) (moves : Nat → Move) (x : Station) (htold : x.Told handlings)
  (hown : ∀ n, ∃ k, n ≤ k ∧ (moves k).IsOwn)

include htold in
theorem told_after (n : Nat) : (after settings handle binding moves x n).Told handlings := by
  induction n with
  | zero => exact htold
  | succ n ih => exact told_step settings handle binding handlings (moves n) _ ih

include hown in
/-- The task takes its next step in the phase in which it is. -/
theorem exists_own (n : Nat) : ∃ k, n ≤ k ∧ (moves k).IsOwn ∧
    (after settings handle binding moves x k).phase =
      (after settings handle binding moves x n).phase := by
  rcases hown n with ⟨k, hle, hk⟩
  rcases Nat.exists_eq_add_of_le hle with ⟨d, rfl⟩
  clear hle
  induction d generalizing n with
  | zero => exact ⟨n, Nat.le_refl n, hk, rfl⟩
  | succ d ih =>
    by_cases hn : (moves n).IsOwn
    · exact ⟨n, Nat.le_refl n, hn, rfl⟩
    · rw [← Nat.add_assoc, Nat.add_right_comm] at hk
      rcases ih (n + 1) hk with ⟨k, hle, hown', hphase⟩
      refine ⟨k, Nat.le_of_succ_le hle, hown', hphase.trans ?_⟩
      exact (step_of_not_own settings handle binding (moves n) _ hn).2

include htold hown in
/-- A task that has been told to stop comes to its end if it takes step after step. -/
theorem exists_ended : ∃ n, (after settings handle binding moves x n).Ended := by
  -- The induction follows what is left to the task; how long others keep it waiting does not count.
  have hends : ∀ phase n, (after settings handle binding moves x n).phase = phase →
      ∃ k, (after settings handle binding moves x k).Ended := by
    intro phase
    induction phase using told_induction with
    | ended m => exact fun n hn => ⟨n, m, hn⟩
    | next phase ih =>
      intro n hn
      rcases exists_own settings handle binding moves x hown n with ⟨k, -, hk, hphase⟩
      have hnow := told_after settings handle binding handlings moves x htold k
      cases hmove : moves k with
      | own answer =>
        have hadvance := advance_own settings handle binding answer
          (after settings handle binding moves x k)
        have hsignalled := signalled_of_told handlings _ hnow
        rw [hphase.trans hn] at hadvance hsignalled
        refine ih _ _ _ hnow.halted hsignalled hadvance (k + 1) ?_
        rw [after, hmove]
        rfl
      | other i =>
        rw [hmove] at hk
        exact absurd hk not_false
      | close =>
        rw [hmove] at hk
        exact absurd hk not_false
  exact hends _ 0 rfl

end Forever

theorem after_add (moves : Nat → Move) (x : Station) (n k : Nat) :
    after settings handle binding moves x (n + k) =
      after settings handle binding (fun j => moves (n + j))
        (after settings handle binding moves x n) k := by
  induction k with
  | zero => rfl
  | succ k ih =>
    rw [← Nat.add_assoc, after, ih]
    rfl

/-- What is set and what is sound stay so while steps are taken without end. -/
theorem sound_after (handlings : List Handling) (moves : Nat → Move) (x : Station)
    (h : x.Sound handlings) (hhalted : x.mailbox.halted = true) (n : Nat) :
    (after settings handle binding moves x n).Sound handlings ∧
      (after settings handle binding moves x n).mailbox.halted = true := by
  induction n with
  | zero => exact ⟨h, hhalted⟩
  | succ n ih =>
    exact ⟨sound_step settings handle binding handlings (moves n) _ ih.1,
      halted_step settings handle binding (moves n) _ ih.2⟩

/-- A task waits with some samples, and others tell it to stop or give it samples, in any order of
    all their steps. At any time, the action of a transient policy has succeeded once at most, and
    the policy has been retired once at most. From when one who has told the task to stop has
    returned: one action at most comes to its end, and none begins after a sample has been received.
    Of what is queued the task reads one sample at most, and none at all if no other call that tells
    it to stop is still to give the signal. As soon as there is no such call, it comes to its end
    within finitely many of its steps. -/
theorem run_stopped (m : Monitor) (queue : List Sample) (handlings : List Handling)
    (before : List Move) :
    let life := run settings handle binding before (start m queue handlings)
    (m.kind = .transient → life.1.countP isSuccess ≤ 1) ∧
      life.1.countP (fun event => event = .retires) ≤ 1 ∧
      (life.2.Returned handlings →
        (∀ moves : List Move,
          let rest := run settings handle binding moves life.2
          rest.1.countP isFinish ≤ 1 ∧
            (∀ front sample back, rest.1 = front ++ .receives sample :: back → .begins ∉ back) ∧
            (∃ arrived, life.2.mailbox.queue ++ arrived =
              received rest.1 ++ rest.2.mailbox.queue) ∧
            (received rest.1).length ≤ 1 ∧ (life.2.Settled → received rest.1 = [])) ∧
          ∀ moves : Nat → Move, (∀ n, ∃ k, n ≤ k ∧ (moves k).IsOwn) →
            (∃ n, (after settings handle binding moves life.2 n).Settled) →
              ∃ n, (after settings handle binding moves life.2 n).Ended) := by
  intro life
  have hsound : life.2.Sound handlings :=
    sound_run settings handle binding handlings before _ (sound_start m queue handlings)
  refine ⟨fun hkind => successes_run settings handle binding before (start m queue handlings) hkind,
    retires_run settings handle binding before (start m queue handlings), fun hreturned => ?_⟩
  have hhalted := halted_of_returned handlings life.2 hsound hreturned
  refine ⟨fun moves => ?_, fun moves hown hsettled => ?_⟩
  · intro rest
    have hfinishes := finishes_run settings handle binding moves life.2 hhalted
    have hreceives := receives_run settings handle binding moves life.2 hhalted
    have hfinishesLeft : finishesLeft life.2.phase ≤ 1 := by
      unfold finishesLeft
      split <;> omega
    have hreceivesLeft : receivesLeft life.2.phase ≤ 1 := by
      unfold receivesLeft
      split <;> omega
    refine ⟨Nat.le_trans hfinishes hfinishesLeft, ?_,
      queue_run settings handle binding moves life.2, ?_, fun hsettled => ?_⟩
    · exact fun front sample back =>
        begins_not_mem settings handle binding moves life.2 hhalted front back sample
    · rw [length_received]
      exact Nat.le_trans hreceives hreceivesLeft
    · exact received_of_told settings handle binding handlings moves life.2
        ⟨hsound, hhalted, hsettled⟩
  · rcases hsettled with ⟨n, hsettled⟩
    -- What counts is the schedule from there on.
    rcases sound_after settings handle binding handlings moves life.2 hsound hhalted n with
      ⟨hsoundLater, hhaltedLater⟩
    have hlater : ∀ k, ∃ j, k ≤ j ∧ (moves (n + j)).IsOwn := by
      intro k
      rcases hown (n + k) with ⟨j, hle, hj⟩
      rcases Nat.exists_eq_add_of_le hle with ⟨d, rfl⟩
      exact ⟨k + d, Nat.le_add_right k d, by rwa [← Nat.add_assoc]⟩
    rcases exists_ended settings handle binding handlings (fun j => moves (n + j)) _
      ⟨hsoundLater, hhaltedLater, hsettled⟩ hlater with ⟨k, hk⟩
    rw [← after_add] at hk
    exact ⟨n + k, hk⟩

end Ending

/-! ### A task that is told to stop in the midst of its action -/

/-- A transient monitor whose condition holds as soon as its metric is known. -/
def eager : Monitor :=
  { kind := .transient, condition := .any [.all [], .compare "put_bw" .greaterThan 0] }

def eagerHandle : MonitorHandle :=
  { serial := 0, policyId := 1, kind := .transient
    target := { tenantId := "t1", tenantName := "alice" } }

def eagerBinding : MonitorBinding :=
  { target := eagerHandle.target
    action := { verb := .delete, filterName := "compress", transient := true }
    objectFilter := none }

def putSample : Sample := { tenantId := "t1", metric := "put_bw", value := 1 }

/-- The task takes its next step, and its calls are answered as in an empty session. -/
def ownStep : Move := .own fun c => (Session.exec c {}).1

/-- The task has received the first of two samples and begun its action. Then one of two others has
    told it to stop and returned. -/
def toldInAction : Station :=
  (run {} eagerHandle eagerBinding [ownStep, ownStep, ownStep, ownStep, .other 0, .other 0]
    (start eager [putSample, putSample] [.stop, .stop])).2

theorem settled_toldInAction : toldInAction.Settled := by
  have hothers : toldInAction.others = [.done (), Mailbox.stop] := rfl
  intro i
  rw [hothers]
  match i with
  | 0 => exact fun h => nomatch h
  | 1 => exact fun h => stop_ne_signalling (Option.some.inj h)
  | _ + 2 => exact fun h => nomatch h

/-- The task comes to its end, and the second sample is not read. -/
theorem run_stopped_in_action :
    toldInAction.Returned [.stop, .stop] ∧ (∃ m p, toldInAction.phase = .acting m p) ∧
      toldInAction.mailbox.queue.length = 1 ∧
      (∀ moves, received (run {} eagerHandle eagerBinding moves toldInAction).1 = []) ∧
      ∃ n, (after {} eagerHandle eagerBinding (fun _ => ownStep) toldInAction n).Ended := by
  have hreturned : toldInAction.Returned [.stop, .stop] := ⟨0, rfl, rfl⟩
  have htold := (run_stopped {} eagerHandle eagerBinding eager _ _ _).2.2 hreturned
  refine ⟨hreturned, ⟨_, _, rfl⟩, rfl, fun moves => ?_, ?_⟩
  · exact (htold.1 moves).2.2.2.2 settled_toldInAction
  · exact htold.2 _ (fun n => ⟨n, Nat.le_refl n, trivial⟩) ⟨0, settled_toldInAction⟩

end Station

end StoragePolicy
