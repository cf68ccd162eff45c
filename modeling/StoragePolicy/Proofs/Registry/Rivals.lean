import Mathlib.Data.List.Induction
import StoragePolicy.Registry.Catalog
import StoragePolicy.Proofs.Registry.Vacancy
import StoragePolicy.Proofs.Store.Lists

/-!
# Callers that create one object type

To create an object type a caller looks whether there is one of its name and, if there is none,
appends its extensions in a second call. An append does not mind what is there. So all callers that
have looked before the first of them appends are told that they have created the object type, and it
has the extensions of them all; those that look later are told that it exists.

Who is in time is seen from the order of the turns alone: whoever has its first turn before anybody
has a second one. The first caller is, and it is the only one if nobody comes between its two turns.

## Main definitions

* `Pool.creators`: Callers that are about to create an object type of one name.
* `Pool.InTime`: The callers that look before the first append.
* `Pool.Sooner`: The order in which callers append.
* `Pool.Creating`, `Pool.Contested`: Where a caller stands, and what holds at every point.

## Theorems

* `inTime_concat`: Who is in time after one more turn.
* `contested_step`, `contested_run`: What holds at every point.
* `created_of_run`: What the callers are told, and what is stored, once all have come to their end.
* `not_forall_created_once`: Two callers may both have created one object type.
-/

namespace StoragePolicy

open Registry

/-! ### The calls of a creation -/

namespace Registry

/-- What is left of a creation that has found no object type of its name. -/
def adding (t : ObjectType) : Process :=
  .call (.apply [.append (objectTypeKey t.name) t.extensions])
    fun reply => .done (Except.mapError EngineError.store reply)

/-- What is left of a creation after its first call. -/
def afterCheck (t : ObjectType) : Except StoreError Bool → Process
  | .error e => .done (.error (.store e))
  | .ok true => .done (.error (.objectTypeExists t.name))
  | .ok false => adding t

theorem run_createObjectType (t : ObjectType) (h : checkObjectType t = .ok ()) :
    (createObjectType t).run = .call (.contains (objectTypeKey t.name)) (afterCheck t) := by
  rw [createObjectType, h]
  refine congrArg (Program.call _) (funext fun reply => ?_)
  match reply with
  | .error e => rfl
  | .ok true => rfl
  | .ok false => rfl

theorem extensions_ne_nil (t : ObjectType) (h : checkObjectType t = .ok ()) :
    t.extensions ≠ [] := by
  unfold checkObjectType at h
  intro hnil
  rw [hnil] at h
  split at h <;> exact nomatch h

end Registry

namespace Pool

/-- Callers that are about to create an object type of one name, each with extensions of its own. -/
def creators (s : Store) (name : String) (lists : List (List String)) : Pool :=
  { store := s
    processes := lists.map fun extensions => (createObjectType { name, extensions }).run }

/-! ### The order of the turns -/

/-- A caller is in time if it has its first turn before anybody has a second one. -/
def InTime (schedule : List Nat) (i : Nat) : Prop :=
  ∃ before, before ++ [i] <+: schedule ∧ (before ++ [i]).Nodup

/-- One caller has its second turn before another one has. -/
def Sooner (schedule : List Nat) (i j : Nat) : Prop :=
  ∃ before, before <+: schedule ∧ 2 ≤ before.count i ∧ before.count j < 2

/-- Who is in time after one more turn: who was before, and whose turn it is, as long as nobody has
    had two. -/
theorem inTime_concat (schedule : List Nat) (j i : Nat) :
    InTime (schedule ++ [j]) i ↔
      InTime schedule i ∨ i = j ∧ (schedule ++ [j]).Nodup := by
  constructor
  · rintro ⟨before, hbefore, hnodup⟩
    rcases List.prefix_concat_iff.mp hbefore with heq | hshorter
    · rcases List.append_inj' heq rfl with ⟨rfl, hlast⟩
      cases hlast
      exact Or.inr ⟨rfl, hnodup⟩
    · exact Or.inl ⟨before, hshorter, hnodup⟩
  · rintro (⟨before, hbefore, hnodup⟩ | ⟨rfl, hnodup⟩)
    · exact ⟨before, hbefore.trans (List.prefix_append _ _), hnodup⟩
    · exact ⟨schedule, List.prefix_refl _, hnodup⟩

theorem nodup_concat_iff (schedule : List Nat) (j : Nat) :
    (schedule ++ [j]).Nodup ↔ schedule.Nodup ∧ j ∉ schedule := by
  rw [List.nodup_append]
  constructor
  · rintro ⟨hnodup, -, hne⟩
    exact ⟨hnodup, fun hmem => hne j hmem j (List.mem_singleton_self j) rfl⟩
  · rintro ⟨hnodup, hnot⟩
    refine ⟨hnodup, List.nodup_singleton j, fun i hi k hk heq => ?_⟩
    rw [List.mem_singleton.mp hk] at heq
    exact hnot (heq ▸ hi)

theorem inTime_concat_of_mem (schedule : List Nat) (j i : Nat) (h : j ∈ schedule) :
    InTime (schedule ++ [j]) i ↔ InTime schedule i := by
  rw [inTime_concat]
  exact or_iff_left fun hlast => ((nodup_concat_iff schedule j).mp hlast.2).2 h

theorem inTime_concat_of_ne (schedule : List Nat) (j i : Nat) (h : i ≠ j) :
    InTime (schedule ++ [j]) i ↔ InTime schedule i := by
  rw [inTime_concat]
  exact or_iff_left fun hlast => h hlast.1

theorem mem_of_inTime (schedule : List Nat) (i : Nat) (h : InTime schedule i) : i ∈ schedule := by
  rcases h with ⟨before, hbefore, -⟩
  exact hbefore.subset (by simp)

theorem count_concat_of_ne (schedule : List Nat) (j i : Nat) (h : i ≠ j) :
    (schedule ++ [j]).count i = schedule.count i := by
  rw [List.count_append, List.count_singleton, if_neg (by simpa using Ne.symm h), Nat.add_zero]

theorem count_concat_self (schedule : List Nat) (i : Nat) :
    (schedule ++ [i]).count i = schedule.count i + 1 := by
  rw [List.count_append, List.count_singleton_self]

theorem sooner_concat (schedule : List Nat) (k i j : Nat) (h : Sooner schedule i j) :
    Sooner (schedule ++ [k]) i j := by
  rcases h with ⟨before, hbefore, hcounts⟩
  exact ⟨before, hbefore.trans (List.prefix_append _ _), hcounts⟩

/-- As soon as anybody has had two turns, somebody who was in time has. -/
theorem exists_inTime (schedule : List Nat) (h : ¬ schedule.Nodup) :
    ∃ i, InTime schedule i ∧ 2 ≤ schedule.count i := by
  induction schedule using List.reverseRecOn with
  | nil => exact absurd List.nodup_nil h
  | append_singleton schedule j ih =>
    by_cases hnodup : schedule.Nodup
    · -- The last turn is the first that is a second one, and that of a caller in time.
      have hmem : j ∈ schedule := by
        by_contra hnot
        exact h ((nodup_concat_iff schedule j).mpr ⟨hnodup, hnot⟩)
      rcases List.append_of_mem hmem with ⟨before, after, rfl⟩
      refine ⟨j, ⟨before, ⟨after ++ [j], by simp⟩, ?_⟩, ?_⟩
      · exact hnodup.sublist (List.Sublist.append_left (by simp) before)
      · rw [count_concat_self]
        have hpos := List.count_pos_iff.mpr hmem
        omega
    · rcases ih hnodup with ⟨i, htime, hcount⟩
      refine ⟨i, (inTime_concat _ _ _).mpr (Or.inl htime), ?_⟩
      rw [List.count_append]
      omega

/-! ### What holds at every point -/

/-- Where a caller stands, by the turns that were taken. -/
inductive Creating (schedule : List Nat) (i : Nat) (t : ObjectType) : Process → Prop where
  | fresh (hcount : schedule.count i = 0) : Creating schedule i t (createObjectType t).run
  | adding (hcount : schedule.count i = 1) (htime : InTime schedule i) :
    Creating schedule i t (adding t)
  | created (hcount : 2 ≤ schedule.count i) (htime : InTime schedule i) :
    Creating schedule i t (.done (.ok ()))
  | refused (hcount : 1 ≤ schedule.count i) (hlate : ¬ InTime schedule i) :
    Creating schedule i t (.done (.error (.objectTypeExists t.name)))

/-- What a caller would store. -/
def offered (lists : List (List String)) (i : Nat) : List String := (lists[i]?).getD []

/-- What holds when some callers have appended, in this order: they are those in time that have had
    two turns, and what they offered is stored. -/
structure Contested (s : Store) (name : String) (lists : List (List String)) (schedule : List Nat)
    (winners : List Nat) (p : Pool) : Prop where
  store : p.store = s.putList (objectTypeKey name) (winners.flatMap (offered lists))
  caller : ∀ i extensions, lists[i]? = some extensions →
    ∃ process, p.processes[i]? = some process ∧ Creating schedule i ⟨name, extensions⟩ process
  mem_iff : ∀ i, i ∈ winners ↔ InTime schedule i ∧ 2 ≤ schedule.count i
  order : winners.Pairwise (Sooner schedule)

theorem creating_concat_of_ne (schedule : List Nat) (j i : Nat) (t : ObjectType)
    (process : Process) (hne : i ≠ j) (h : Creating schedule i t process) :
    Creating (schedule ++ [j]) i t process := by
  have htime := inTime_concat_of_ne schedule j i hne
  have hcount := count_concat_of_ne schedule j i hne
  cases h with
  | fresh h => exact .fresh (hcount.trans h)
  | adding h h' => exact .adding (hcount.trans h) (htime.mpr h')
  | created h h' => exact .created (hcount.symm ▸ h) (htime.mpr h')
  | refused h h' => exact .refused (hcount.symm ▸ h) fun hlate => h' (htime.mp hlate)

section Contested

variable (s : Store) (name : String) (lists : List (List String))
  (hvalid : ∀ extensions ∈ lists, checkObjectType ⟨name, extensions⟩ = .ok ())

theorem contested_start (habsent : s.get? (objectTypeKey name) = none) :
    Contested s name lists [] [] (creators s name lists) where
  store := (Store.putList_nil_of_get? s _ habsent).symm
  caller := by
    intro i extensions hget
    refine ⟨_, ?_, .fresh rfl⟩
    rw [creators, List.getElem?_map, hget]
    rfl
  mem_iff := fun i => ⟨fun h => absurd h List.not_mem_nil, fun h => absurd h.2 (by simp)⟩
  order := .nil

/-- A turn of one caller. What the others were in the middle of they still are. -/
theorem contested_turn (schedule winners winners' : List Nat) (p : Pool) (i : Nat)
    (extensions : List String) (store : Store) (process : Process)
    (h : Contested s name lists schedule winners p) (hget : lists[i]? = some extensions)
    (hprocess : Creating (schedule ++ [i]) i ⟨name, extensions⟩ process)
    (hstore : store = s.putList (objectTypeKey name) (winners'.flatMap (offered lists)))
    (hwinners : ∀ j, j ∈ winners' ↔ j ∈ winners ∨
      j = i ∧ InTime (schedule ++ [i]) i ∧ 2 ≤ (schedule ++ [i]).count i)
    (horder : winners'.Pairwise (Sooner (schedule ++ [i]))) :
    Contested s name lists (schedule ++ [i]) winners'
      { store, processes := p.processes.set i process } where
  store := hstore
  caller := by
    intro j others hj
    rcases h.caller j others hj with ⟨before, hbefore, hcreating⟩
    by_cases hji : j = i
    · subst hji
      rw [hget] at hj
      cases hj
      refine ⟨process, ?_, hprocess⟩
      rw [List.getElem?_set_self', hbefore]
      rfl
    · refine ⟨before, ?_, creating_concat_of_ne schedule i j _ before hji hcreating⟩
      rw [List.getElem?_set_ne (Ne.symm hji), hbefore]
  mem_iff := by
    intro j
    rw [hwinners, h.mem_iff]
    -- A caller that had won has won still. The one whose turn it is may have won by it.
    by_cases hji : j = i
    · subst hji
      refine ⟨?_, fun hafter => Or.inr ⟨rfl, hafter⟩⟩
      rintro (⟨htime, hcount⟩ | ⟨-, hafter⟩)
      · refine ⟨(inTime_concat _ _ _).mpr (Or.inl htime), ?_⟩
        rw [count_concat_self]
        omega
      · exact hafter
    · rw [inTime_concat_of_ne _ _ _ hji, count_concat_of_ne _ _ _ hji]
      exact or_iff_left fun hlast => hji hlast.1
  order := horder

include hvalid

/-- What is stored is nothing exactly as long as nobody has appended, since nobody offers an empty
    list. -/
theorem isEmpty_flatMap_offered (winners : List Nat) (hwinners : ∀ i ∈ winners, i < lists.length) :
    (winners.flatMap (offered lists)).isEmpty = winners.isEmpty := by
  cases winners with
  | nil => rfl
  | cons i rest =>
    have hi := hwinners i List.mem_cons_self
    have hne := extensions_ne_nil _ (hvalid lists[i] (List.getElem_mem hi))
    rw [List.flatMap_cons, offered, List.getElem?_eq_getElem hi, Option.getD_some]
    cases hlist : lists[i] with
    | nil => exact absurd hlist hne
    | cons _ _ => rfl

omit hvalid

/-- A caller that has come to its end has no effect, and nobody has appended. -/
theorem contested_idle (schedule winners : List Nat) (p : Pool) (i : Nat)
    (extensions : List String) (result : Except EngineError Unit)
    (h : Contested s name lists schedule winners p) (hget : lists[i]? = some extensions)
    (hprocess : p.processes[i]? = some (.done result))
    (hafter : Creating (schedule ++ [i]) i ⟨name, extensions⟩ (.done result))
    (hmem : InTime (schedule ++ [i]) i → i ∈ winners) :
    Contested s name lists (schedule ++ [i]) winners (p.step i) := by
  have hsame : p.processes.set i (.done result) = p.processes := by
    refine List.ext_getElem? fun j => ?_
    by_cases hji : j = i
    · subst hji
      rw [List.getElem?_set_self', hprocess]
      rfl
    · rw [List.getElem?_set_ne (Ne.symm hji)]
  have hstep : p.step i = ⟨p.store, p.processes.set i (.done result)⟩ := by
    rw [step, hprocess, hsame]
  rw [hstep]
  refine contested_turn s name lists schedule winners winners p i extensions _ _ h hget hafter
    h.store (fun j => (or_iff_left_of_imp ?_).symm)
    (h.order.imp fun hsooner => sooner_concat schedule i _ _ hsooner)
  rintro ⟨rfl, htime, -⟩
  exact hmem htime

include hvalid

/-- A caller looks. If nobody has appended, nobody has had two turns, and the caller is in time. -/
theorem contested_check (schedule winners : List Nat) (p : Pool) (i : Nat)
    (extensions : List String) (h : Contested s name lists schedule winners p)
    (hget : lists[i]? = some extensions) (hturns : ∀ j ∈ schedule, j < lists.length)
    (hcount : schedule.count i = 0)
    (hprocess : p.processes[i]? = some (createObjectType ⟨name, extensions⟩).run) :
    Contested s name lists (schedule ++ [i]) winners (p.step i) := by
  have hnot : i ∉ schedule := List.count_eq_zero.mp hcount
  have hone : (schedule ++ [i]).count i = 1 := by rw [count_concat_self, hcount]
  have hwinners : ∀ j ∈ winners, j < lists.length := fun j hj =>
    hturns j (mem_of_inTime schedule j ((h.mem_iff j).mp hj).1)
  have hstep : p.step i = ⟨p.store, p.processes.set i
      (afterCheck ⟨name, extensions⟩ (.ok (!winners.isEmpty)))⟩ := by
    rw [run_createObjectType _ (hvalid extensions (List.mem_of_getElem? hget))] at hprocess
    rw [step, hprocess]
    simp only [Store.exec]
    rw [h.store, Store.contains_putList, isEmpty_flatMap_offered name lists hvalid winners hwinners]
    rfl
  rw [hstep]
  refine contested_turn s name lists schedule winners winners p i extensions _ _ h hget ?_ h.store
    (fun j => (or_iff_left fun hlast => ?_).symm)
    (h.order.imp fun hsooner => sooner_concat schedule i _ _ hsooner)
  · cases hempty : winners.isEmpty with
    | true =>
      have hnodup : schedule.Nodup := by
        by_contra htwice
        rcases exists_inTime schedule htwice with ⟨j, hj⟩
        rw [List.isEmpty_iff.mp hempty] at h
        exact absurd ((h.mem_iff j).mpr hj) List.not_mem_nil
      refine .adding hone ((inTime_concat _ _ _).mpr (Or.inr ⟨rfl, ?_⟩))
      exact (nodup_concat_iff schedule i).mpr ⟨hnodup, hnot⟩
    | false =>
      refine .refused (Nat.le_of_eq hone.symm) fun htime => ?_
      rcases (inTime_concat _ _ _).mp htime with hbefore | ⟨-, hnodup⟩
      · exact hnot (mem_of_inTime schedule i hbefore)
      · -- Whoever has appended has had two turns.
        cases winners with
        | nil => exact absurd hempty (by simp)
        | cons j rest =>
          have htwo := ((h.mem_iff j).mp List.mem_cons_self).2
          have hfew := List.nodup_iff_count_le_one.mp ((nodup_concat_iff schedule i).mp hnodup).1 j
          omega
  · have htwo := hlast.2.2
    omega

/-- A caller that has found nothing appends what it offers, whatever is there by now. -/
theorem contested_append (schedule winners : List Nat) (p : Pool) (i : Nat)
    (extensions : List String) (h : Contested s name lists schedule winners p)
    (hget : lists[i]? = some extensions) (hcount : schedule.count i = 1)
    (htime : InTime schedule i)
    (hprocess : p.processes[i]? = some (adding ⟨name, extensions⟩)) :
    Contested s name lists (schedule ++ [i]) (winners ++ [i]) (p.step i) := by
  have htwo : 2 ≤ (schedule ++ [i]).count i := by
    rw [count_concat_self]
    omega
  have hafter := (inTime_concat schedule i i).mpr (Or.inl htime)
  have happend := Store.mutate_append p.store (objectTypeKey name)
    (winners.flatMap (offered lists)) extensions
    (extensions_ne_nil _ (hvalid extensions (List.mem_of_getElem? hget)))
    (by rw [h.store, Store.listAt_putList])
  have hstep : p.step i = ⟨p.store.putList (objectTypeKey name)
      (winners.flatMap (offered lists) ++ extensions), p.processes.set i (.done (.ok ()))⟩ := by
    rw [step, hprocess]
    simp only [adding, Store.exec]
    rw [Store.applyBatch_single _ _ _ happend]
    rfl
  rw [hstep]
  refine contested_turn s name lists schedule winners (winners ++ [i]) p i extensions _ _ h hget
    (.created htwo hafter) ?_ (fun j => ?_) ?_
  · rw [h.store, Store.putList_putList, List.flatMap_append]
    simp [offered, hget]
  · rw [List.mem_append, List.mem_singleton]
    exact or_congr_right (and_iff_left ⟨hafter, htwo⟩).symm
  -- All who have won before have appended before, so that the new one comes last.
  · have horder := h.order.imp fun hsooner => sooner_concat schedule i _ _ hsooner
    refine List.pairwise_append.mpr ⟨horder, List.pairwise_singleton _ _, ?_⟩
    intro j hj k hk
    rw [List.mem_singleton.mp hk]
    refine ⟨schedule, List.prefix_append _ _, ((h.mem_iff j).mp hj).2, ?_⟩
    omega

/-- Every turn of a caller keeps what holds. -/
theorem contested_step (schedule winners : List Nat) (p : Pool) (i : Nat)
    (h : Contested s name lists schedule winners p) (hi : i < lists.length)
    (hturns : ∀ j ∈ schedule, j < lists.length) :
    ∃ winners', Contested s name lists (schedule ++ [i]) winners' (p.step i) := by
  have hget := List.getElem?_eq_getElem hi
  rcases h.caller i _ hget with ⟨process, hprocess, hcreating⟩
  have hmore := count_concat_self schedule i
  cases hcreating with
  | fresh hcount =>
    exact ⟨_, contested_check s name lists hvalid schedule winners p i _ h hget hturns hcount
      hprocess⟩
  | adding hcount htime =>
    exact ⟨_, contested_append s name lists hvalid schedule winners p i _ h hget hcount htime
      hprocess⟩
  | created hcount htime =>
    have hafter := (inTime_concat schedule i i).mpr (Or.inl htime)
    exact ⟨_, contested_idle s name lists schedule winners p i _ _ h hget hprocess
      (.created (by omega) hafter) fun _ => (h.mem_iff i).mpr ⟨htime, hcount⟩⟩
  | refused hcount hlate =>
    have hstill : ¬ InTime (schedule ++ [i]) i := fun htime =>
      hlate ((inTime_concat_of_mem schedule i i (List.count_pos_iff.mp hcount)).mp htime)
    exact ⟨_, contested_idle s name lists schedule winners p i _ _ h hget hprocess
      (.refused (by omega) hstill) fun htime => absurd htime hstill⟩

/-- What holds after any turns of the callers. -/
theorem contested_run (habsent : s.get? (objectTypeKey name) = none) (schedule : List Nat)
    (hturns : ∀ i ∈ schedule, i < lists.length) :
    ∃ winners, Contested s name lists schedule winners ((creators s name lists).run schedule) := by
  induction schedule using List.reverseRecOn with
  | nil => exact ⟨[], contested_start s name lists habsent⟩
  | append_singleton schedule i ih =>
    have hbefore : ∀ j ∈ schedule, j < lists.length := fun j hj =>
      hturns j (List.mem_append_left _ hj)
    rcases ih hbefore with ⟨winners, h⟩
    have hrun : (creators s name lists).run (schedule ++ [i]) =
        ((creators s name lists).run schedule).step i := List.foldl_append
    rw [hrun]
    exact contested_step s name lists hvalid schedule winners _ i h
      (hturns i (List.mem_append_right _ (List.mem_singleton_self i))) hbefore

end Contested

/-- What a caller is told in the end. -/
def told (name : String) (winners : List Nat) (i : Nat) : Except EngineError Unit :=
  if i ∈ winners then .ok () else .error (.objectTypeExists name)

/-- Whoever has the first turn is in time. -/
theorem inTime_head (i : Nat) (rest : List Nat) : InTime (i :: rest) i :=
  ⟨[], ⟨rest, rfl⟩, List.nodup_singleton i⟩

/-- If nobody comes between the two turns of the first caller, nobody else is in time. -/
theorem eq_of_inTime (i : Nat) (rest : List Nat) (j : Nat) (h : InTime (i :: i :: rest) j) :
    j = i := by
  rcases h with ⟨before, ⟨after, hsplit⟩, hnodup⟩
  match before with
  | [] => exact (List.cons.inj hsplit).1
  | [k] =>
    have hfirst := (List.cons.inj hsplit).1
    have hsecond := (List.cons.inj (List.cons.inj hsplit).2).1
    exact hsecond
  | k :: l :: before =>
    have hfirst := (List.cons.inj hsplit).1
    have hsecond := (List.cons.inj (List.cons.inj hsplit).2).1
    rw [hfirst, hsecond] at hnodup
    exact absurd List.mem_cons_self (List.nodup_cons.mp hnodup).1

/-- The first caller is the only one in time exactly if nobody comes between its two turns. -/
theorem exists_eq_singleton_iff (schedule winners : List Nat)
    (htwice : ∀ i ∈ schedule, InTime schedule i → 2 ≤ schedule.count i)
    (hmem : ∀ i, i ∈ winners ↔ InTime schedule i) (hnodup : winners.Nodup) :
    (∃ i, winners = [i]) ↔ ∃ i rest, schedule = i :: i :: rest := by
  constructor
  · rintro ⟨winner, rfl⟩
    have hunique : ∀ i, InTime schedule i → i = winner := fun i hi =>
      List.mem_singleton.mp ((hmem i).mpr hi)
    have hwinner := (hmem winner).mp (List.mem_singleton_self winner)
    have hcount := htwice winner (mem_of_inTime schedule winner hwinner) hwinner
    match schedule with
    | [] => exact absurd hcount (by simp)
    | [i] =>
      have hfew : [i].count winner ≤ 1 := List.count_le_length
      omega
    | i :: j :: rest =>
      have hi : i = winner := hunique i (inTime_head i (j :: rest))
      -- Another one that came between the two turns would be in time as well.
      by_cases hji : j = i
      · exact ⟨i, rest, by rw [hji]⟩
      · have hj : j = winner := hunique j ⟨[i], ⟨rest, rfl⟩, by simp [Ne.symm hji]⟩
        exact absurd (hj.trans hi.symm) hji
  · rintro ⟨i, rest, rfl⟩
    refine ⟨i, ?_⟩
    have hall : ∀ j ∈ winners, j = i := fun j hj => eq_of_inTime i rest j ((hmem j).mp hj)
    have hi : i ∈ winners := (hmem i).mpr (inTime_head i (i :: rest))
    cases winners with
    | nil => exact absurd hi List.not_mem_nil
    | cons j rest =>
      cases rest with
      | nil => rw [hall j List.mem_cons_self]
      | cons k rest =>
        have hj := hall j List.mem_cons_self
        have hk := hall k (List.mem_cons_of_mem _ List.mem_cons_self)
        rw [hj, hk] at hnodup
        exact absurd List.mem_cons_self (List.nodup_cons.mp hnodup).1

/-- Nobody has had two turns before itself. -/
theorem nodup_of_sooner (schedule winners : List Nat) (h : winners.Pairwise (Sooner schedule)) :
    winners.Nodup := by
  refine h.imp fun hsooner heq => ?_
  subst heq
  rcases hsooner with ⟨before, -, htwo, hfew⟩
  omega

/-- A caller that has come to its end has had a turn, and a second one if it was in time; and its
    result goes by whether it was. -/
theorem told_of_creating (schedule winners : List Nat) (i : Nat) (t : ObjectType)
    (process : Process) (hvalid : checkObjectType t = .ok ())
    (hmem : i ∈ winners ↔ InTime schedule i ∧ 2 ≤ schedule.count i)
    (h : Creating schedule i t process) (hdone : ∃ result, process = .done result) :
    i ∈ schedule ∧ (InTime schedule i → 2 ≤ schedule.count i) ∧
      process = .done (told t.name winners i) := by
  rcases hdone with ⟨result, hresult⟩
  cases h with
  | fresh hcount =>
    rw [run_createObjectType t hvalid] at hresult
    exact nomatch hresult
  | adding hcount htime => exact nomatch hresult
  | created hcount htime =>
    rw [told, if_pos (hmem.mpr ⟨htime, hcount⟩)]
    exact ⟨mem_of_inTime schedule i htime, fun _ => hcount, rfl⟩
  | refused hcount hlate =>
    rw [told, if_neg fun hwon => hlate (hmem.mp hwon).1]
    exact ⟨List.count_pos_iff.mp hcount, fun htime => absurd htime hlate, rfl⟩

/-- Once all callers have come to their end, exactly those that were in time are told that they have
    created the object type, and it has the extensions of them all, in the order of their appends.
    There is always one of them, and there is only one exactly if nobody comes between the two turns
    of the first caller. -/
theorem created_of_run (s : Store) (name : String) (lists : List (List String))
    (habsent : s.get? (objectTypeKey name) = none)
    (hvalid : ∀ extensions ∈ lists, checkObjectType ⟨name, extensions⟩ = .ok ())
    (schedule : List Nat) (hturns : ∀ i ∈ schedule, i < lists.length)
    (hdone : ∀ process ∈ ((creators s name lists).run schedule).processes,
      ∃ result, process = .done result) :
    ∃ winners : List Nat,
      (∀ i, i ∈ winners ↔ InTime schedule i) ∧ winners.Pairwise (Sooner schedule) ∧
      winners.Nodup ∧
      (∀ i < lists.length, ((creators s name lists).run schedule).processes[i]? =
        some (.done (told name winners i))) ∧
      ((creators s name lists).run schedule).store =
        s.putList (objectTypeKey name) (winners.flatMap (offered lists)) ∧
      (lists ≠ [] → winners ≠ []) ∧
      ((∃ i, winners = [i]) ↔ ∃ i rest, schedule = i :: i :: rest) := by
  rcases contested_run s name lists hvalid habsent schedule hturns with ⟨winners, h⟩
  -- Each caller has ended, so that it has had its turns and has been told what is due to it.
  have hended : ∀ i < lists.length, i ∈ schedule ∧
      (InTime schedule i → 2 ≤ schedule.count i) ∧
      ((creators s name lists).run schedule).processes[i]? =
        some (.done (told name winners i)) := by
    intro i hi
    rcases h.caller i _ (List.getElem?_eq_getElem hi) with ⟨process, hprocess, hcreating⟩
    rcases told_of_creating schedule winners i _ process (hvalid _ (List.getElem_mem hi))
      (h.mem_iff i) hcreating (hdone process (List.mem_of_getElem? hprocess)) with
      ⟨hturn, htwo, rfl⟩
    exact ⟨hturn, htwo, hprocess⟩
  have htwice : ∀ i ∈ schedule, InTime schedule i → 2 ≤ schedule.count i := fun i hi =>
    (hended i (hturns i hi)).2.1
  have hmem : ∀ i, i ∈ winners ↔ InTime schedule i := by
    intro i
    rw [h.mem_iff]
    exact and_iff_left_of_imp fun htime => htwice i (mem_of_inTime schedule i htime) htime
  have hnodup := nodup_of_sooner schedule winners h.order
  refine ⟨winners, hmem, h.order, hnodup, fun i hi => (hended i hi).2.2, h.store, fun hlists => ?_,
    exists_eq_singleton_iff schedule winners htwice hmem hnodup⟩
  -- The first turn of all is in time, and there is one if there are callers.
  have hfirst := (hended 0 (List.length_pos_iff.mpr hlists)).1
  cases schedule with
  | nil => exact absurd hfirst List.not_mem_nil
  | cons i rest => exact List.ne_nil_of_mem ((hmem i).mpr (inTime_head i rest))

/-- Two callers look before either of them appends, and a third one comes later. -/
theorem created_of_run_two_in_time :
    (Dict.empty : Store).get? (objectTypeKey "DOCS") = none ∧
      ∃ winners : List Nat, winners.Pairwise (Sooner [0, 1, 1, 2, 0]) ∧
        (∀ i < 3, ((creators Dict.empty "DOCS" [["pdf"], ["docx"], ["txt"]]).run
          [0, 1, 1, 2, 0]).processes[i]? = some (.done (told "DOCS" winners i))) ∧
        ((creators Dict.empty "DOCS" [["pdf"], ["docx"], ["txt"]]).run [0, 1, 1, 2, 0]).store =
          Store.putList Dict.empty (objectTypeKey "DOCS")
            (winners.flatMap (offered [["pdf"], ["docx"], ["txt"]])) := by
  have habsent : (Dict.empty : Store).get? (objectTypeKey "DOCS") = none := rfl
  have hvalid : ∀ extensions ∈ [["pdf"], ["docx"], ["txt"]],
      checkObjectType ⟨"DOCS", extensions⟩ = .ok () := by decide
  have hturns : ∀ i ∈ [0, 1, 1, 2, 0], i < [["pdf"], ["docx"], ["txt"]].length := by decide
  have hended : ((creators Dict.empty "DOCS" [["pdf"], ["docx"], ["txt"]]).run
      [0, 1, 1, 2, 0]).processes =
        [.done (.ok ()), .done (.ok ()), .done (.error (.objectTypeExists "DOCS"))] := rfl
  have hdone : ∀ process ∈ ((creators Dict.empty "DOCS" [["pdf"], ["docx"], ["txt"]]).run
      [0, 1, 1, 2, 0]).processes, ∃ result, process = .done result := by
    rw [hended]
    simp
  rcases created_of_run Dict.empty "DOCS" _ habsent hvalid _ hturns hdone with
    ⟨winners, -, horder, -, htold, hstore, -⟩
  exact ⟨habsent, winners, horder, htold, hstore⟩

/-- Two callers may both have created one object type, and then it has the extensions of both. -/
theorem not_forall_created_once :
    (¬ ∀ (s : Store) (name : String) (lists : List (List String)), lists ≠ [] →
      s.get? (objectTypeKey name) = none →
      (∀ extensions ∈ lists, checkObjectType ⟨name, extensions⟩ = .ok ()) →
      ∀ schedule : List Nat, (∀ i ∈ schedule, i < lists.length) →
      (∀ process ∈ ((creators s name lists).run schedule).processes,
        ∃ result, process = .done result) →
      ∃ i extensions, lists[i]? = some extensions ∧
        (∀ j < lists.length, ((creators s name lists).run schedule).processes[j]? =
          some (.done (told name [i] j))) ∧
        ((creators s name lists).run schedule).store.listAt (objectTypeKey name) =
          .ok extensions) ∧
      ((creators Dict.empty "DOCS" [["docx"], ["pdf"]]).run [0, 1, 1, 0]).processes =
        [.done (.ok ()), .done (.ok ())] ∧
      ((creators Dict.empty "DOCS" [["docx"], ["pdf"]]).run [0, 1, 1, 0]).store.listAt
        (objectTypeKey "DOCS") = .ok ["pdf", "docx"] := by
  have hended : ((creators Dict.empty "DOCS" [["docx"], ["pdf"]]).run [0, 1, 1, 0]).processes =
      [.done (.ok ()), .done (.ok ())] := rfl
  have hstored : ((creators Dict.empty "DOCS" [["docx"], ["pdf"]]).run [0, 1, 1, 0]).store.listAt
      (objectTypeKey "DOCS") = .ok ["pdf", "docx"] := rfl
  refine ⟨fun hall => ?_, hended, hstored⟩
  rcases hall Dict.empty "DOCS" [["docx"], ["pdf"]] (by decide) rfl (by decide) [0, 1, 1, 0]
    (by decide) (by rw [hended]; simp) with ⟨i, extensions, hi, -, honly⟩
  rw [hstored] at honly
  -- Neither of the two lists is what is stored.
  have hmem := List.mem_of_getElem? hi
  rw [← Except.ok.inj honly] at hmem
  exact absurd hmem (by decide)

end Pool

end StoragePolicy
